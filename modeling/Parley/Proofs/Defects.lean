import Parley.Proofs.Acceptance

/-!
# What the error of a build says

A build that fails names a defect of a record that some entry leads to. Every record on the path to
a record leads to it by responses, so a response that is met again on its own path is reachable from
itself.
-/

namespace Parley.Conversation

variable {records : Array Record}

def Reached (records : Array Record) (index : Fin records.size) : Prop :=
  ∃ entry, (recordAt records entry).player = "" ∧
    Relation.ReflTransGen (Links records) entry index

theorem reached_of_mem_entries {entry : Fin records.size} (h : entry ∈ entries records) :
    Reached records entry :=
  ⟨entry, mem_entries.mp h, .refl⟩

theorem Reached.link {index next : Fin records.size} (h : Reached records index)
    (hlink : Links records index next) : Reached records next := by
  obtain ⟨entry, hentry, hindex⟩ := h
  exact ⟨entry, hentry, hindex.tail hlink⟩

/-- What is wrong with a record if this error is reported for it. -/
inductive Defect (records : Array Record) (index : Fin records.size) : BuildError → Prop
  | cyclicResponse :
    Relation.TransGen (Links records) index index → Defect records index (.cyclicResponse index)
  | responseOutOfRange {response : Nat} :
    response ∈ (recordAt records index).response → records.size ≤ response →
      Defect records index (.responseOutOfRange index response records.size)
  | noText : (recordAt records index).text = "" → Defect records index (.noText index)
  | malformedLevel {parameter : String} :
    Condition.Parts (recordAt records index).condition.toList "level".toList parameter.toList →
      Decimal.int32? parameter.toList = none →
        Defect records index (.malformedLevel index parameter)
  | unknownCondition {token : String} {parameter : List Char} :
    Condition.Parts (recordAt records index).condition.toList token.toList parameter →
      token ∉ ["none", "ally", "enemy", "level", "item"] →
        Defect records index (.unknownCondition token)
  | unknownAction {token : String} :
    (recordAt records index).action = token →
      token ∉ ["no action", "attack", "buy", "sell", "trade", "give", "take"] →
        Defect records index (.unknownAction token)

theorem defect_of_assemble {index : Fin records.size} {lines : List Line} {e : BuildError}
    (h : assemble index (recordAt records index) lines = .error e) : Defect records index e := by
  rw [assemble_eq] at h
  split at h
  · next htext =>
    obtain rfl := Except.error.inj h
    exact .noText htext
  · split at h
    · next token hread =>
      obtain rfl := Except.error.inj h
      obtain ⟨⟨parameter, hparts⟩, hnone⟩ := Condition.read_eq_error_iff.mp hread
      apply Defect.unknownCondition hparts
      intro hmem
      obtain ⟨condition, hcondition⟩ := Condition.mem_tokens_iff.mp hmem
      exact hnone condition hcondition
    · next condition parameter hread =>
      split at h
      · next hlevel =>
        obtain rfl := Except.error.inj h
        obtain ⟨rfl, hnone⟩ := hlevel
        exact .malformedLevel (Condition.read_eq_ok_iff.mp hread) hnone
      · split at h
        · next hnone =>
          obtain rfl := Except.error.inj h
          apply Defect.unknownAction rfl
          intro hmem
          obtain ⟨action, haction⟩ := Action.mem_tokens_iff.mp hmem
          have hfound := Action.ofToken?_eq_some_iff.mpr haction
          cases hnone.symm.trans hfound
        · cases h

/-- Why a response of a record at the end of a path gives no line. -/
inductive Fails (records : Array Record) (index : Fin records.size)
    (path : List (Fin records.size)) : Nat → BuildError → Prop
  | outside {response : Nat} :
    records.size ≤ response →
      Fails records index path response (.responseOutOfRange index response records.size)
  | cyclic {response : Fin records.size} :
    response ∈ path → Fails records index path response (.cyclicResponse response)
  | unresolved {response : Fin records.size} (hfresh : response ∉ path) {e : BuildError} :
    resolve records response path hfresh = .error e → Fails records index path response e

theorem exists_fails_of_resolveAll {index : Fin records.size} {path : List (Fin records.size)}
    {responses : List Nat} {e : BuildError}
    (h : resolveAll records index path responses = .error e) :
    ∃ response ∈ responses, Fails records index path response e := by
  induction responses with
  | nil =>
    rw [resolveAll] at h
    cases h
  | cons response rest ih =>
    rw [resolveAll] at h
    split at h
    · next hinside =>
      split at h
      · next hfresh =>
        rcases bind_eq_error_iff.mp h with hline | ⟨line, -, hlines⟩
        · exact ⟨response, List.mem_cons_self, .unresolved hfresh hline⟩
        · rcases bind_eq_error_iff.mp hlines with hrest | ⟨lines, -, hok⟩
          · obtain ⟨later, hmem, hfails⟩ := ih hrest
            exact ⟨later, List.mem_cons_of_mem response hmem, hfails⟩
          · cases hok
      · next hfresh =>
        obtain rfl := Except.error.inj h
        exact ⟨response, List.mem_cons_self, .cyclic (not_not.mp hfresh)⟩
    · next houtside =>
      obtain rfl := Except.error.inj h
      exact ⟨response, List.mem_cons_self, .outside (Nat.le_of_not_lt houtside)⟩

/-- The error of a record, reached along a path that leads to it, is a defect of a record that it
leads to. -/
theorem exists_defect_of_resolve {index : Fin records.size} {path : List (Fin records.size)}
    {hfresh : index ∉ path} (hpath : ∀ above ∈ path, Relation.TransGen (Links records) above index)
    {e : BuildError} (h : resolve records index path hfresh = .error e) :
    ∃ last, Relation.ReflTransGen (Links records) index last ∧ Defect records last e := by
  induction index, path, hfresh using path_induction with
  | hstep index path hfresh ih =>
    rw [resolve_eq] at h
    rcases bind_eq_error_iff.mp h with hall | ⟨lines, -, hassemble⟩
    · obtain ⟨response, hmem, hfails⟩ := exists_fails_of_resolveAll hall
      cases hfails with
      | outside houtside => exact ⟨index, .refl, .responseOutOfRange hmem houtside⟩
      | @cyclic response hback =>
        have hlink : Links records index response := hmem
        -- What is met again is the record itself or stands above it, and so leads to it.
        refine ⟨response, .single hlink, .cyclicResponse ?_⟩
        rcases List.mem_cons.mp hback with rfl | hback
        · exact .single hlink
        · exact (hpath response hback).tail hlink
      | @unresolved response hnext _ hline =>
        have hlink : Links records index response := hmem
        have hlonger : ∀ above ∈ index :: path,
            Relation.TransGen (Links records) above response := by
          intro above habove
          rcases List.mem_cons.mp habove with rfl | habove
          · exact .single hlink
          · exact (hpath above habove).tail hlink
        obtain ⟨last, hlast, hdefect⟩ := ih response hnext hlonger hline
        exact ⟨last, hlast.head hlink, hdefect⟩
    · exact ⟨index, .refl, defect_of_assemble hassemble⟩

theorem exists_of_mapM_eq_error {α β ε : Type} {f : α → Except ε β} {xs : List α} {e : ε}
    (h : xs.mapM f = .error e) : ∃ x ∈ xs, f x = .error e := by
  induction xs with
  | nil => cases h
  | cons x xs ih =>
    rw [List.mapM_cons] at h
    rcases bind_eq_error_iff.mp h with hx | ⟨y, -, hlater⟩
    · exact ⟨x, List.mem_cons_self, hx⟩
    · rcases bind_eq_error_iff.mp hlater with hxs | ⟨ys, -, hok⟩
      · obtain ⟨x', hmem, hx'⟩ := ih hxs
        exact ⟨x', List.mem_cons_of_mem x hmem, hx'⟩
      · cases hok

/-- The error of a build is a defect of a record that some entry leads to. -/
theorem build_error_names_defect {e : BuildError} (h : build records = .error e) :
    ∃ index, Reached records index ∧ Defect records index e := by
  rw [build, linesAt_eq_mapM (quiet_blank records)] at h
  obtain ⟨entry, hentry, hline⟩ := exists_of_mapM_eq_error h
  have hpath : ∀ above ∈ ([] : List (Fin records.size)),
      Relation.TransGen (Links records) above entry :=
    fun _ hmem => absurd hmem List.not_mem_nil
  obtain ⟨index, hindex, hdefect⟩ := exists_defect_of_resolve hpath hline
  exact ⟨index, ⟨entry, mem_entries.mp hentry, hindex⟩, hdefect⟩

/-- Two records respond with each other, below an entry that is not part of their circle. -/
def carousel : Array Record :=
  #[⟨"", "Step up.", "none", "no action", [1, 3]⟩,
    ⟨"Me?", "You.", "ally", "no action", [3, 2]⟩,
    ⟨"Again?", "Again.", "level=5", "trade", [3, 1]⟩,
    ⟨"", "Farewell.", "none", "no action", []⟩]

theorem build_carousel : build carousel = .error (.cyclicResponse 1) := by
  with_unfolding_all rfl

theorem carousel_defect :
    build carousel = .error (.cyclicResponse 1) ∧
      ∃ index, Reached carousel index ∧ Defect carousel index (.cyclicResponse 1) :=
  ⟨build_carousel, build_error_names_defect build_carousel⟩

end Parley.Conversation
