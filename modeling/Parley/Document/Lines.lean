import Parley.Json.Fields
import Parley.Json.Reader
import Parley.Json.Writer
import Parley.Line
import Parley.Record

/-!
# Records and tokens in documents

Records, conditions and actions as documents write them. A record without responses leaves them
out. A condition or an action is given by its name, as a string or as the key of a null member.
-/

namespace Parley

/-- A name, written as a string or as the only key of an object with the value null. -/
def Json.name? : Json → Option String
  | .string text => text
  | .object [(key, .null)] => key
  | _ => none

def Condition.ofJson? (json : Json) : Option Condition :=
  json.name? >>= ofName?

def Action.ofJson? (json : Json) : Option Action :=
  json.name? >>= ofName?

namespace Record

def fieldNames : List String :=
  ["player", "text", "condition", "action", "response"]

def ofJson? (json : Json) : Option Record :=
  match json.fields? fieldNames with
  | some [some player, some text, some condition, some action, response] => do
    let player ← player.text?
    let text ← text.text?
    let condition ← condition.text?
    let action ← action.text?
    let response ← Json.orElse [] (Json.list? Json.word64?) response
    some { player, text, condition, action, response }
  | _ => none

def listOfJson? (json : Json) : Option (Array Record) :=
  (Json.list? ofJson? json).map List.toArray

def toJson (record : Record) : Json :=
  let responses : List Json.Member :=
    if record.response = [] then []
    else [Json.member "response" (.array (record.response.map .natural))]
  .object
    ([Json.member "player" (.text record.player), Json.member "text" (.text record.text),
      Json.member "condition" (.text record.condition),
      Json.member "action" (.text record.action)] ++ responses)

end Record

end Parley
