import Parley.Conversation.Assemble

/-!
# From a written record to its line

What assembling a record asks of its texts, and what the line then says. The parts of a written
condition are given by a relation of their own, without reading the text from left to right.
-/

namespace Parley

namespace Condition

@[simp] theorem split_nil : split [] = ([], []) := rfl

@[simp] theorem split_cons_equals (rest : List Char) : split ('=' :: rest) = ([], rest) := rfl

theorem split_cons_of_ne {c : Char} (h : c ≠ '=') (rest : List Char) :
    split (c :: rest) = (c :: (split rest).1, (split rest).2) := by
  simp [split, h]

/-- The token and the parameter that the first equals sign separates. -/
def Parts (written token parameter : List Char) : Prop :=
  '=' ∉ token ∧ (written = token ++ '=' :: parameter ∨ written = token ∧ parameter = [])

theorem parts_split (written : List Char) :
    Parts written (split written).1 (split written).2 := by
  induction written with
  | nil => exact ⟨List.not_mem_nil, .inr ⟨rfl, rfl⟩⟩
  | cons c rest ih =>
    by_cases hc : c = '='
    · subst hc
      exact ⟨List.not_mem_nil, .inl rfl⟩
    · rw [split_cons_of_ne hc]
      obtain ⟨hfree, hparts⟩ := ih
      have hfree' : '=' ∉ c :: (split rest).1 :=
        List.not_mem_cons_of_ne_of_not_mem (Ne.symm hc) hfree
      refine ⟨hfree', ?_⟩
      rcases hparts with hparts | ⟨hparts, hnone⟩
      · exact .inl (congrArg (c :: ·) hparts)
      · exact .inr ⟨congrArg (c :: ·) hparts, hnone⟩

theorem split_of_parts {written token parameter : List Char}
    (h : Parts written token parameter) : split written = (token, parameter) := by
  obtain ⟨hfree, hparts⟩ := h
  induction token generalizing written with
  | nil =>
    rcases hparts with rfl | ⟨rfl, rfl⟩
    · exact split_cons_equals parameter
    · exact split_nil
  | cons c token ih =>
    obtain ⟨hc, hfree⟩ := List.ne_and_not_mem_of_not_mem_cons hfree
    rcases hparts with rfl | ⟨rfl, rfl⟩
    · rw [List.cons_append, split_cons_of_ne (Ne.symm hc), ih hfree (.inl rfl)]
    · rw [split_cons_of_ne (Ne.symm hc), ih hfree (.inr ⟨rfl, rfl⟩)]

theorem Parts.unique {written token parameter token' parameter' : List Char}
    (h : Parts written token parameter) (h' : Parts written token' parameter') :
    token = token' ∧ parameter = parameter' := by
  have hsplit := split_of_parts h
  rw [split_of_parts h'] at hsplit
  exact Prod.mk.inj hsplit.symm

theorem mem_tokens_iff {token : String} :
    token ∈ ["none", "ally", "enemy", "level", "item"] ↔
      ∃ condition : Condition, token = condition.token := by
  constructor
  · intro h
    have hmem : token ∈ all.map Condition.token := h
    obtain ⟨condition, -, hcondition⟩ := List.mem_map.mp hmem
    exact ⟨condition, hcondition.symm⟩
  · rintro ⟨condition, rfl⟩
    cases condition <;> decide

theorem eq_level_of_token {condition : Condition} (h : condition.token = "level") :
    condition = .level := by
  have hread := ofToken?_token condition
  rw [h] at hread
  have hlevel : ofToken? "level" = some .level := ofToken?_token .level
  exact Option.some.inj (hread.symm.trans hlevel)

theorem ofToken?_eq_some_iff {token : String} {condition : Condition} :
    ofToken? token = some condition ↔ token = condition.token := by
  constructor
  · intro h
    rw [ofToken?] at h
    have htoken := List.find?_some h
    exact (of_decide_eq_true htoken).symm
  · rintro rfl
    exact ofToken?_token condition

theorem read_eq_ok_iff {written parameter : String} {condition : Condition} :
    read written = .ok (condition, parameter) ↔
      Parts written.toList condition.token.toList parameter.toList := by
  constructor
  · intro h
    simp only [read] at h
    split at h
    · next found hfound =>
      obtain ⟨rfl, rfl⟩ := Prod.mk.inj (Except.ok.inj h)
      rw [ofToken?_eq_some_iff] at hfound
      rw [← hfound, String.toList_ofList, String.toList_ofList]
      exact parts_split _
    · cases h
  · intro h
    simp only [read, split_of_parts h, String.ofList_toList, ofToken?_token]

theorem read_eq_error_iff {written token : String} :
    read written = .error token ↔
      (∃ parameter, Parts written.toList token.toList parameter) ∧
        ∀ condition : Condition, token ≠ condition.token := by
  have hparts := parts_split written.toList
  simp only [read]
  constructor
  · intro h
    split at h
    · cases h
    · next hnone =>
      obtain rfl := Except.error.inj h
      rw [String.toList_ofList]
      refine ⟨⟨_, hparts⟩, fun condition heq => ?_⟩
      rw [ofToken?_eq_some_iff.mpr heq] at hnone
      cases hnone
  · rintro ⟨⟨parameter, htoken⟩, hnone⟩
    have hsplit := split_of_parts htoken
    cases hfound : ofToken? token with
    | none => simp only [hsplit, String.ofList_toList, hfound]
    | some condition => exact absurd (ofToken?_eq_some_iff.mp hfound) (hnone condition)

theorem parse_eq (written : String) :
    parse written =
      match read written with
      | .error token => .error (.unknownCondition token)
      | .ok parts => .ok parts := by
  rw [parse]
  cases read written <;> rfl

end Condition

namespace Action

theorem mem_tokens_iff {token : String} :
    token ∈ ["no action", "attack", "buy", "sell", "trade", "give", "take"] ↔
      ∃ action : Action, token = action.token := by
  constructor
  · intro h
    have hmem : token ∈ all.map Action.token := h
    obtain ⟨action, -, haction⟩ := List.mem_map.mp hmem
    exact ⟨action, haction.symm⟩
  · rintro ⟨action, rfl⟩
    cases action <;> decide

theorem ofToken?_eq_some_iff {token : String} {action : Action} :
    ofToken? token = some action ↔ token = action.token := by
  constructor
  · intro h
    rw [ofToken?] at h
    have htoken := List.find?_some h
    exact (of_decide_eq_true htoken).symm
  · rintro rfl
    exact ofToken?_token action

end Action

structure Line.Voices (line : Line) (record : Record) : Prop where
  prompt : line.prompt = record.player
  text : line.text = record.text
  condition : Condition.Parts record.condition.toList line.condition.token.toList
    line.parameter.toList
  action : record.action = line.action.token

namespace Conversation

theorem assemble_eq (index : Nat) (record : Record) (lines : List Line) :
    assemble index record lines =
      if record.text = "" then .error (.noText index)
      else
        match Condition.read record.condition with
        | .error token => .error (.unknownCondition token)
        | .ok (condition, parameter) =>
          if condition = .level ∧ Decimal.int32? parameter.toList = none then
            .error (.malformedLevel index parameter)
          else
            match Action.ofToken? record.action with
            | none => .error (.unknownAction record.action)
            | some action =>
              .ok ⟨index, record.player, record.text, condition, parameter, action, lines⟩ := by
  simp only [assemble, Condition.parse_eq, checkLevel, Action.parse, String.isEmpty_iff]
  split
  · rfl
  · cases Condition.read record.condition with
    | error token => rfl
    | ok parts =>
      obtain ⟨condition, parameter⟩ := parts
      simp only [bind, Except.bind]
      by_cases hlevel : condition = .level ∧ Decimal.int32? parameter.toList = none
      · rw [if_pos hlevel, if_pos hlevel]
      · rw [if_neg hlevel, if_neg hlevel]
        cases Action.ofToken? record.action <;> rfl

theorem assemble_eq_ok_iff {index : Nat} {record : Record} {lines : List Line} {line : Line} :
    assemble index record lines = .ok line ↔
      line.index = index ∧ line.responses = lines ∧ line.Voices record ∧ record.text ≠ "" ∧
        (line.condition = .level → Decimal.int32? line.parameter.toList ≠ none) := by
  rw [assemble_eq]
  constructor
  · intro h
    split at h
    · cases h
    · next htext =>
      split at h
      · cases h
      · next condition parameter hread =>
        split at h
        · cases h
        · next hlevel =>
          split at h
          · cases h
          · next action haction =>
            obtain rfl := Except.ok.inj h
            have hparts := Condition.read_eq_ok_iff.mp hread
            have htoken := Action.ofToken?_eq_some_iff.mp haction
            refine ⟨rfl, rfl, ⟨rfl, rfl, hparts, htoken⟩, htext, ?_⟩
            intro hcondition hnone
            exact hlevel ⟨hcondition, hnone⟩
  · rintro ⟨rfl, rfl, ⟨hprompt, htext, hcondition, haction⟩, hfull, hlevel⟩
    have hread := Condition.read_eq_ok_iff.mpr hcondition
    have htoken := Action.ofToken?_eq_some_iff.mpr haction
    have hchecked : ¬(line.condition = .level ∧ Decimal.int32? line.parameter.toList = none) := by
      rintro ⟨hcondition, hnone⟩
      exact hlevel hcondition hnone
    rw [if_neg hfull, hread, htoken, ← hprompt, ← htext]
    simp only [if_neg hchecked]
    cases line
    rfl

end Conversation

end Parley
