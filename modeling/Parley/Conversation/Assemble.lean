import Parley.Line
import Parley.Record
import Parley.Text.Decimal

/-!
# From a record to a line

One record becomes one line, once the lines it responds with are known. The record is checked in a
fixed order: its text, its condition, the level it asks for, its action.
-/

namespace Parley

inductive BuildError
  | unknownCondition (token : String)
  | unknownAction (token : String)
  | noText (index : Nat)
  | malformedLevel (index : Nat) (parameter : String)
  | responseOutOfRange (index response size : Nat)
  | cyclicResponse (index : Nat)
deriving DecidableEq

namespace BuildError

def message : BuildError → String
  | unknownCondition token => "unknown condition type `" ++ token ++ "`"
  | unknownAction token => "unknown action type `" ++ token ++ "`"
  | noText index => "line " ++ toString index ++ " has no text"
  | malformedLevel index parameter =>
    "line " ++ toString index ++ ": condition parameter `" ++ parameter ++ "` is not a valid level"
  | responseOutOfRange index response size =>
    "line " ++ toString index ++ " responds with line " ++ toString response
      ++ ", but the conversation has " ++ toString size ++ " lines"
  | cyclicResponse index => "line " ++ toString index ++ " is reachable from itself"

end BuildError

namespace Condition

def parse (written : String) : Except BuildError (Condition × String) :=
  (read written).mapError .unknownCondition

end Condition

namespace Action

def parse (token : String) : Except BuildError Action :=
  match ofToken? token with
  | some action => .ok action
  | none => .error (.unknownAction token)

end Action

namespace Conversation

/-- A level condition needs a level; no other condition looks at its parameter here. -/
def checkLevel (index : Nat) (condition : Condition) (parameter : String) :
    Except BuildError Unit :=
  if condition = .level ∧ Decimal.int32? parameter.toList = none then
    .error (.malformedLevel index parameter)
  else .ok ()

def assemble (index : Nat) (record : Record) (responses : List Line) : Except BuildError Line := do
  if record.text.isEmpty then .error (.noText index)
  let (condition, parameter) ← Condition.parse record.condition
  checkLevel index condition parameter
  let action ← Action.parse record.action
  .ok
    { index, prompt := record.player, text := record.text, condition, parameter, action, responses }

end Conversation

end Parley
