import Parley.Proofs.Memoization

/-!
# Which records make a conversation

A build succeeds exactly when every record that some entry leads to can become a line, and none of
them leads back to itself. What no entry leads to is not looked at.
-/

namespace Parley

/-- What a record must hold to become a line, in a conversation of `size` records. -/
structure Record.Fit (size : Nat) (record : Record) : Prop where
  inside : ∀ response ∈ record.response, response < size
  text : record.text ≠ ""
  condition : ∀ token parameter, Condition.Parts record.condition.toList token parameter →
    String.ofList token ∈ ["none", "ally", "enemy", "level", "item"]
  level : ∀ parameter, Condition.Parts record.condition.toList "level".toList parameter →
    (Decimal.int32? parameter).isSome
  action : record.action ∈ ["no action", "attack", "buy", "sell", "trade", "give", "take"]

namespace Conversation

variable {records : Array Record}

theorem exists_forall₂_iff {α β : Type} {R : α → β → Prop} {xs : List α} :
    (∃ ys, List.Forall₂ R xs ys) ↔ ∀ x ∈ xs, ∃ y, R x y := by
  induction xs with
  | nil => simp [List.forall₂_nil_left_iff]
  | cons x xs ih =>
    rw [List.forall_mem_cons, ← ih]
    constructor
    · rintro ⟨_, _ | ⟨hx, hxs⟩⟩
      exact ⟨⟨_, hx⟩, ⟨_, hxs⟩⟩
    · rintro ⟨⟨y, hx⟩, ⟨ys, hxs⟩⟩
      exact ⟨y :: ys, .cons hx hxs⟩

theorem fit_of_assemble {index size : Nat} {record : Record} {lines : List Line} {line : Line}
    (hinside : ∀ response ∈ record.response, response < size)
    (h : assemble index record lines = .ok line) : record.Fit size := by
  obtain ⟨-, -, hvoices, htext, hlevel⟩ := assemble_eq_ok_iff.mp h
  refine ⟨hinside, htext, fun token parameter hparts => ?_, fun parameter hparts => ?_, ?_⟩
  · obtain ⟨rfl, -⟩ := hparts.unique hvoices.condition
    rw [String.ofList_toList]
    exact Condition.mem_tokens_iff.mpr ⟨line.condition, rfl⟩
  · obtain ⟨htoken, rfl⟩ := hparts.unique hvoices.condition
    have hcondition := Condition.eq_level_of_token (String.toList_injective htoken).symm
    have hread := hlevel hcondition
    exact Option.isSome_iff_ne_none.mpr hread
  · exact Action.mem_tokens_iff.mpr ⟨line.action, hvoices.action⟩

theorem exists_assemble {size : Nat} {record : Record} (h : record.Fit size) (index : Nat)
    (lines : List Line) :
    ∃ line, assemble index record lines = .ok line ∧ line.responses = lines := by
  have hparts := Condition.parts_split record.condition.toList
  obtain ⟨condition, hcondition⟩ := Condition.mem_tokens_iff.mp (h.condition _ _ hparts)
  obtain ⟨action, haction⟩ := Action.mem_tokens_iff.mp h.action
  have htoken : (Condition.split record.condition.toList).1 = condition.token.toList := by
    rw [← hcondition, String.toList_ofList]
  rw [htoken] at hparts
  let parameter := String.ofList (Condition.split record.condition.toList).2
  refine ⟨⟨index, record.player, record.text, condition, parameter, action, lines⟩,
    assemble_eq_ok_iff.mpr ⟨rfl, rfl, ⟨rfl, rfl, ?_, haction⟩, h.text, ?_⟩, rfl⟩
  · simpa only [parameter, String.toList_ofList] using hparts
  · rintro rfl
    have hlevel := h.level _ hparts
    simpa only [parameter, String.toList_ofList, ne_eq, Option.isSome_iff_ne_none] using hlevel

/-- What is needed of every record that a record leads to, if it is reached along a path. -/
def Clear (records : Array Record) (path : List (Fin records.size)) (next : Fin records.size) :
    Prop :=
  (recordAt records next).Fit records.size ∧ next ∉ path ∧
    ¬ Relation.TransGen (Links records) next next

theorem clear_of_resolve {index : Fin records.size} {path : List (Fin records.size)}
    {hfresh : index ∉ path} (h : ∃ line, resolve records index path hfresh = .ok line) :
    ∀ last, Relation.ReflTransGen (Links records) index last → Clear records path last := by
  induction index, path, hfresh using path_induction with
  | hstep index path hfresh ih =>
    obtain ⟨line, hline⟩ := h
    obtain ⟨hlines, hassemble⟩ := resolve_eq_ok_iff.mp hline
    have hfinds := exists_forall₂_iff.mp ⟨_, hlines⟩
    have hbeyond : ∀ next, Links records index next →
        ∀ last, Relation.ReflTransGen (Links records) next last →
          Clear records (index :: path) last := by
      intro next hlink
      obtain ⟨l, hinside, hnext, hl⟩ := hfinds next hlink
      exact ih next hnext ⟨l, hl⟩
    have hacyclic : ¬ Relation.TransGen (Links records) index index := by
      intro hcycle
      obtain ⟨next, hlink, hback⟩ := Relation.TransGen.head'_iff.mp hcycle
      exact (hbeyond next hlink index hback).2.1 List.mem_cons_self
    intro last hlast
    rcases Relation.ReflTransGen.cases_head hlast with rfl | ⟨next, hlink, hrest⟩
    · refine ⟨fit_of_assemble (fun response hmem => ?_) hassemble, hfresh, hacyclic⟩
      obtain ⟨_, hinside, -⟩ := hfinds response hmem
      exact hinside
    · obtain ⟨hfit, hoff, hlast⟩ := hbeyond next hlink last hrest
      exact ⟨hfit, fun hmem => hoff (List.mem_cons_of_mem index hmem), hlast⟩

theorem resolve_of_clear {index : Fin records.size} {path : List (Fin records.size)}
    {hfresh : index ∉ path}
    (h : ∀ last, Relation.ReflTransGen (Links records) index last → Clear records path last) :
    ∃ line, resolve records index path hfresh = .ok line := by
  induction index, path, hfresh using path_induction with
  | hstep index path hfresh ih =>
    obtain ⟨hfit, -, hacyclic⟩ := h index .refl
    have hfinds : ∀ response ∈ (recordAt records index).response,
        ∃ line, Finds records (index :: path) response line := by
      intro response hmem
      have hinside := hfit.inside response hmem
      have hlink : Links records index ⟨response, hinside⟩ := hmem
      have hnext : ⟨response, hinside⟩ ∉ index :: path := by
        intro hback
        rcases List.mem_cons.mp hback with heq | hback
        · exact hacyclic (.single (heq ▸ hlink))
        · exact (h _ (.single hlink)).2.1 hback
      have hbeyond : ∀ last, Relation.ReflTransGen (Links records) ⟨response, hinside⟩ last →
          Clear records (index :: path) last := by
        intro last hlast
        obtain ⟨hfit, hoff, hlast'⟩ := h last (hlast.head hlink)
        refine ⟨hfit, fun hback => ?_, hlast'⟩
        rcases List.mem_cons.mp hback with rfl | hback
        · exact hacyclic (Relation.TransGen.head' hlink hlast)
        · exact hoff hback
      obtain ⟨line, hline⟩ := ih ⟨response, hinside⟩ hnext hbeyond
      exact ⟨line, hinside, hnext, hline⟩
    obtain ⟨lines, hlines⟩ := exists_forall₂_iff.mpr hfinds
    obtain ⟨line, hassemble, rfl⟩ := exists_assemble hfit index lines
    exact ⟨line, resolve_eq_ok_iff.mpr ⟨hlines, hassemble⟩⟩

theorem isEntry_iff {record : Record} : record.isEntry ↔ record.player = "" :=
  String.isEmpty_iff

theorem mem_entries {entry : Fin records.size} :
    entry ∈ entries records ↔ (recordAt records entry).player = "" := by
  simp [entries, isEntry_iff]

theorem clear_of_build {lines : List Line} (h : build records = .ok lines)
    {entry last : Fin records.size} (hentry : entry ∈ entries records)
    (hlast : Relation.ReflTransGen (Links records) entry last) : Clear records [] last := by
  have hlines := build_eq_ok_iff.mp h
  exact clear_of_resolve (exists_forall₂_iff.mp ⟨_, hlines⟩ entry hentry) last hlast

theorem map_index_of_build {lines : List Line} (h : build records = .ok lines) :
    lines.map (·.index) = (entries records).map Fin.val := by
  have hlines := build_eq_ok_iff.mp h
  clear h
  generalize entries records = roots at hlines
  induction hlines with
  | nil => rfl
  | cons hline _ ih =>
    obtain ⟨-, hassemble⟩ := resolve_eq_ok_iff.mp hline
    have hindex := (assemble_eq_ok_iff.mp hassemble).1
    rw [List.map_cons, List.map_cons, ih, hindex]

theorem pairwise_entries (records : Array Record) :
    ((entries records).map Fin.val).Pairwise (· < ·) := by
  have hall := List.pairwise_lt_finRange records.size
  have hentries : (entries records).Pairwise (· < ·) := hall.filter _
  exact List.pairwise_map.mpr hentries

/-- A build succeeds if and only if every record that some entry leads to is fit to become a line
and does not lead back to itself, and then it gives one line for each entry, in order. -/
theorem build_succeeds_iff (records : Array Record) :
    ((∃ lines, build records = .ok lines) ↔
      ∀ entry, (recordAt records entry).player = "" →
        ∀ index, Relation.ReflTransGen (Links records) entry index →
          (recordAt records index).Fit records.size ∧
            ¬ Relation.TransGen (Links records) index index) ∧
    ∀ lines, build records = .ok lines →
      (lines.map (·.index)).Pairwise (· < ·) ∧
        ∀ position, position ∈ lines.map (·.index) ↔
          ∃ entry : Fin records.size, ↑entry = position ∧ (recordAt records entry).player = "" := by
  refine ⟨?_, fun lines h => ?_⟩
  · simp only [build_eq_ok_iff, exists_forall₂_iff, mem_entries]
    constructor
    · intro h entry hentry index hindex
      obtain ⟨hfit, -, hacyclic⟩ := clear_of_resolve (h entry hentry) index hindex
      exact ⟨hfit, hacyclic⟩
    · intro h entry hentry
      apply resolve_of_clear
      intro index hindex
      obtain ⟨hfit, hacyclic⟩ := h entry hentry index hindex
      exact ⟨hfit, List.not_mem_nil, hacyclic⟩
  · rw [map_index_of_build h]
    refine ⟨pairwise_entries records, fun position => ?_⟩
    simp only [List.mem_map, mem_entries]
    constructor
    · rintro ⟨entry, hentry, rfl⟩
      exact ⟨entry, rfl, hentry⟩
    · rintro ⟨entry, rfl, hentry⟩
      exact ⟨entry, hentry, rfl⟩

/-- Two entries, a response that two lines share, and a record that could not become a line but
that nothing leads to. -/
def crossroads : Array Record :=
  #[⟨"", "Which way?", "level=5", "no action", [1, 2]⟩,
    ⟨"Left.", "Left it is.", "none", "attack", [3]⟩,
    ⟨"Right.", "Right it is.", "none", "trade", [3, 3]⟩,
    ⟨"", "Farewell.", "item=lamp", "no action", []⟩,
    ⟨"Again?", "", "mood", "dance", [4, 9]⟩]

/-- The line of the fourth record, to which both ways lead. -/
def farewell : Line :=
  ⟨3, "", "Farewell.", .item, "lamp", .nothing, []⟩

/-- The line of the first record, where the ways part. -/
def parting : Line :=
  ⟨0, "", "Which way?", .level, "5", .nothing,
    [⟨1, "Left.", "Left it is.", .unconditional, "", .attack, [farewell]⟩,
      ⟨2, "Right.", "Right it is.", .unconditional, "", .trade, [farewell, farewell]⟩]⟩

theorem build_crossroads : build crossroads = .ok [parting, farewell] := by
  with_unfolding_all rfl

theorem crossroads_fit :
    ∀ index, Relation.ReflTransGen (Links crossroads) ⟨0, by decide⟩ index →
      (recordAt crossroads index).Fit crossroads.size ∧
        ¬ Relation.TransGen (Links crossroads) index index := by
  exact (build_succeeds_iff crossroads).1.mp ⟨_, build_crossroads⟩ ⟨0, by decide⟩ rfl

end Conversation

end Parley
