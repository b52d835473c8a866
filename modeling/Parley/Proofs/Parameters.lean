import Parley.Proofs.Defects
import Parley.Proofs.Endings

/-!
# Written conditions and their parameters

Reading a condition undoes writing it, with a parameter or without, and nothing else is read. What
stands after the first equals sign is kept whatever the condition is. So the lines of a conversation
whose conditions ask for nothing more have an empty parameter just when nothing is written there.
-/

namespace Parley

namespace Condition

/-- The text is the token of the condition, with an equals sign and the parameter after it unless
the parameter is empty and left out. -/
def Writes (condition : Condition) (parameter written : String) : Prop :=
  (written = condition.token ∧ parameter = "") ∨ written = condition.token ++ "=" ++ parameter

theorem equals_notMem_token (condition : Condition) : '=' ∉ condition.token.toList := by
  cases condition <;> decide

theorem toList_written (condition : Condition) (parameter : String) :
    (condition.token ++ "=" ++ parameter).toList =
      condition.token.toList ++ '=' :: parameter.toList := by
  simp

theorem writes_iff_parts {condition : Condition} {parameter written : String} :
    Writes condition parameter written ↔
      Parts written.toList condition.token.toList parameter.toList := by
  rw [Writes, Parts, ← toList_written, String.toList_inj, String.toList_inj,
    String.toList_eq_nil_iff, or_comm]
  exact (and_iff_right condition.equals_notMem_token).symm

theorem parse_eq_ok_iff {condition : Condition} {parameter written : String} :
    parse written = .ok (condition, parameter) ↔ Writes condition parameter written := by
  rw [writes_iff_parts, ← read_eq_ok_iff, parse_eq]
  cases read written <;> simp

/-- The longest beginning of the text that has no equals sign in it. -/
structure IsHead (text head : List Char) : Prop where
  begins : head <+: text
  free : '=' ∉ head
  longest : ∀ other, other <+: text → '=' ∉ other → other.length ≤ head.length

theorem Parts.isHead {written token parameter : List Char} (h : Parts written token parameter) :
    IsHead written token := by
  obtain ⟨hfree, rfl | ⟨rfl, -⟩⟩ := h
  · refine ⟨List.prefix_append _ _, hfree, fun other hother hnone => ?_⟩
    by_contra hlonger
    -- A longer beginning goes on with the equals sign.
    have hsign : token ++ ['='] <+: token ++ '=' :: parameter := ⟨parameter, by simp⟩
    have hlength : (token ++ ['=']).length ≤ other.length := by
      rw [List.length_append, List.length_singleton]
      omega
    have hwithin : token ++ ['='] <+: other :=
      List.prefix_of_prefix_length_le hsign hother hlength
    exact hnone (hwithin.subset (by simp))
  · exact ⟨List.prefix_rfl, hfree, fun other hother _ => hother.length_le⟩

theorem exists_head_of_not_writes {written : String}
    (h : ∀ condition parameter, ¬Writes condition parameter written) :
    ∃ token : String, parse written = .error (.unknownCondition token) ∧
      IsHead written.toList token.toList ∧ ∀ condition : Condition, token ≠ condition.token := by
  have hparse := parse_eq written
  cases hread : read written with
  | ok parts => exact absurd (writes_iff_parts.mpr (read_eq_ok_iff.mp hread)) (h parts.1 parts.2)
  | error token =>
    obtain ⟨⟨parameter, hparts⟩, hnone⟩ := read_eq_error_iff.mp hread
    rw [hread] at hparse
    exact ⟨token, hparse, hparts.isHead, hnone⟩

/-- A text is read as a condition and a parameter exactly if it writes them. From any other text
the error names what stands before the first equals sign, which is no token. -/
theorem written_condition_is_parsed (written : String) :
    (∀ condition parameter,
        parse written = .ok (condition, parameter) ↔ Writes condition parameter written) ∧
      ((∀ condition parameter, ¬Writes condition parameter written) →
        ∃ token : String, parse written = .error (.unknownCondition token) ∧
          IsHead written.toList token.toList ∧ ∀ condition : Condition, token ≠ condition.token) ∧
      ∀ (condition : Condition) (parameter : String),
        parse (condition.token ++ "=" ++ parameter) = .ok (condition, parameter) :=
  ⟨fun _ _ => parse_eq_ok_iff, exists_head_of_not_writes,
    fun _ _ => parse_eq_ok_iff.mpr (.inr rfl)⟩

example : parse "item=a=b" = .ok (.item, "a=b") ∧ parse "none=" = .ok (.unconditional, "") ∧
    parse "=5" = .error (.unknownCondition "") := by
  decide

end Condition

/-- The conditions that ask for nothing that a parameter could name. -/
def Condition.IsBare (condition : Condition) : Prop :=
  condition = .unconditional ∨ condition = .ally ∨ condition = .enemy

instance : DecidablePred Condition.IsBare :=
  fun _ => inferInstanceAs (Decidable (_ ∨ _))

namespace Walk

open Conversation

variable {records : Array Record}

theorem Stands.exists_index {entry : Fin records.size} {first line : Line}
    (h : Stands records entry first) (hled : Relation.ReflTransGen Line.Offers first line) :
    ∃ index : Fin records.size, Relation.ReflTransGen (Links records) entry index ∧
      Stands records index line := by
  induction hled with
  | refl => exact ⟨entry, .refl, h⟩
  | tail _ hoffers ih =>
    obtain ⟨index, hlinks, hline⟩ := ih
    obtain ⟨response, hlink, hnext⟩ := hline.of_offers hoffers
    exact ⟨response, hlinks.tail hlink, hnext⟩

theorem Stands.of_links {index response : Fin records.size} {line : Line}
    (h : Stands records index line) (hlink : Links records index response) :
    ∃ next, line.Offers next ∧ Stands records response next := by
  obtain ⟨-, -, hresponses⟩ := h.recordAt
  obtain ⟨next, hmem, hnext⟩ := exists_mem_of_forall₂ hresponses.flip hlink
  exact ⟨next, hmem, hnext⟩

theorem Stands.exists_line {entry index : Fin records.size} {first : Line}
    (h : Stands records entry first) (hlinks : Relation.ReflTransGen (Links records) entry index) :
    ∃ line, Relation.ReflTransGen Line.Offers first line ∧ Stands records index line := by
  induction hlinks with
  | refl => exact ⟨first, .refl, h⟩
  | tail _ hlink ih =>
    obtain ⟨line, hled, hline⟩ := ih
    obtain ⟨next, hoffers, hnext⟩ := hline.of_links hlink
    exact ⟨next, hled.tail hoffers, hnext⟩

end Walk

namespace Conversation

variable {records : Array Record} {lines : List Line}

/-- One of the lines that open the conversation leads to the line. -/
def Belongs (lines : List Line) (line : Line) : Prop :=
  ∃ first ∈ lines, Relation.ReflTransGen Line.Offers first line

/-- A line speaks for its record, so what all lines of a built conversation have in common can be
asked of the records that its entries lead to. -/
theorem forall_belongs_iff (h : build records = .ok lines) {P : Line → Prop} {Q : Record → Prop}
    (hsame : ∀ line record, line.Voices record → (P line ↔ Q record)) :
    (∀ line, Belongs lines line → P line) ↔
      ∀ index, Reached records index → Q (recordAt records index) := by
  have hstands := Walk.stands_of_build h
  constructor
  · rintro hall index ⟨entry, hentry, hlinks⟩
    obtain ⟨first, hmem, (hfirst : Walk.Stands records entry first)⟩ :=
      Walk.exists_mem_of_forall₂ hstands.flip (mem_entries.mpr hentry)
    obtain ⟨line, hled, hline⟩ := hfirst.exists_line hlinks
    obtain ⟨-, hvoices, -⟩ := hline.recordAt
    exact (hsame _ _ hvoices).mp (hall line ⟨first, hmem, hled⟩)
  · rintro hall line ⟨first, hmem, hled⟩
    obtain ⟨entry, hentry, hfirst⟩ := Walk.exists_mem_of_forall₂ hstands hmem
    obtain ⟨index, hlinks, hline⟩ := hfirst.exists_index hled
    obtain ⟨-, hvoices, -⟩ := hline.recordAt
    exact (hsame _ _ hvoices).mpr (hall index ⟨entry, mem_entries.mp hentry, hlinks⟩)

theorem parameter_eq_empty_iff {line : Line} {record : Record} (h : line.Voices record) :
    (line.condition.IsBare → line.parameter = "") ↔
      ∀ condition : Condition, condition.IsBare → ∀ parameter,
        record.condition = condition.token ++ "=" ++ parameter → parameter = "" := by
  have hline := Condition.parse_eq_ok_iff.mpr (Condition.writes_iff_parts.mpr h.condition)
  constructor
  · intro hempty condition hbare parameter hwritten
    have hread := Condition.parse_eq_ok_iff.mpr (.inr hwritten)
    obtain ⟨rfl, rfl⟩ := Prod.mk.inj (Except.ok.inj (hread.symm.trans hline))
    exact hempty hbare
  · intro hrecord hbare
    rcases Condition.parse_eq_ok_iff.mp hline with ⟨-, hempty⟩ | hwritten
    · exact hempty
    · exact hrecord line.condition hbare line.parameter hwritten

/-- In a built conversation the lines whose conditions ask for nothing more have no parameter, if
and only if no record that an entry leads to writes one after the token of such a condition. -/
theorem bare_parameters_empty_iff (h : build records = .ok lines) :
    (∀ line, Belongs lines line → line.condition.IsBare → line.parameter = "") ↔
      ∀ index, Reached records index → ∀ condition : Condition, condition.IsBare → ∀ parameter,
        (recordAt records index).condition = condition.token ++ "=" ++ parameter →
          parameter = "" :=
  forall_belongs_iff h fun _ _ => parameter_eq_empty_iff

theorem crossroads_bare :
    ∃ lines, build crossroads = .ok lines ∧
      ∀ line, Belongs lines line → line.condition.IsBare → line.parameter = "" := by
  refine ⟨_, build_crossroads, (bare_parameters_empty_iff build_crossroads).mpr ?_⟩
  intro index _ condition hbare parameter hwritten
  have hread := Condition.parse_eq_ok_iff.mpr (.inr hwritten)
  have hplain : ∀ index, ∀ parts ∈ (Condition.parse (recordAt crossroads index).condition).toOption,
      parts.1.IsBare → parts.2 = "" := by
    decide
  exact hplain index (condition, parameter) (by rw [hread]; rfl) hbare

/-- The condition asks for nothing, and yet there is something behind it. -/
def tollgate : Array Record :=
  #[⟨"", "Pay up.", "none=penny", "no action", []⟩]

theorem tollgate_keeps_penny :
    ∃ lines line, build tollgate = .ok lines ∧ Belongs lines line ∧
      line.condition = .unconditional ∧ line.parameter = "penny" := by
  refine ⟨_, ⟨0, "", "Pay up.", .unconditional, "penny", .nothing, []⟩,
    by with_unfolding_all rfl, ?_, rfl, rfl⟩
  exact ⟨_, List.mem_cons_self, .refl⟩

end Conversation

end Parley
