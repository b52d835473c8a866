import Parley.Answer.Basic

/-!
# Rehearsed answers

Answers fixed in advance, after which the player leaves. The source counts how often it is asked.
-/

namespace Parley

structure Rehearsed where
  selections : List Selection
  asked : Nat

namespace Rehearsed

def ofList (selections : List Selection) : Rehearsed :=
  ⟨selections, 0⟩

def select (rehearsed : Rehearsed) (_line : Line) : Answer Rehearsed :=
  ⟨rehearsed.selections.headD .leave, [], ⟨rehearsed.selections.tail, rehearsed.asked + 1⟩⟩

def source : AnswerSource Rehearsed :=
  ⟨select⟩

end Rehearsed

end Parley
