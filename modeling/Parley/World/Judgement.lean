import Parley.Character
import Parley.Item
import Parley.Line
import Parley.Text.Decimal

/-!
# Judging conditions

Whether a condition holds, for an NPC and the player as they are now.
-/

namespace Parley

inductive ConditionError
  | malformedLevel (parameter : String)
  | unknownItem (item : String)
deriving DecidableEq

def ConditionError.message : ConditionError → String
  | malformedLevel parameter => "condition parameter `" ++ parameter ++ "` is not a valid level"
  | unknownItem item => "unknown item `" ++ item ++ "`"

/-- A level condition asks for a level at least as high as its parameter. An item condition asks for
the item that is found under its parameter. -/
def Condition.holds (condition : Condition) (parameter : String) (item? : ItemLookup) (npc : Npc)
    (player : Player) : Except ConditionError Bool :=
  match condition with
  | .unconditional => .ok true
  | .ally => .ok (npc.allies.contains player.type)
  | .enemy => .ok (npc.enemies.contains player.type)
  | .level =>
    match Decimal.int32? parameter.toList with
    | some least => .ok (least ≤ player.level)
    | none => .error (.malformedLevel parameter)
  | .item =>
    match item? parameter with
    | some found => .ok (player.has found.id)
    | none => .error (.unknownItem parameter)

def Line.holds (line : Line) (item? : ItemLookup) (npc : Npc) (player : Player) :
    Except ConditionError Bool :=
  line.condition.holds line.parameter item? npc player

end Parley
