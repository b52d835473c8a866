import Parley.Json.Numeral

/-!
# JSON documents

An escape in a string may leave half of a surrogate pair alone: such a string has its place in a
document, but no text. An object keeps all its members, repeated keys included.
-/

namespace Parley

inductive Json
  | null
  | bool (value : Bool)
  | number (numeral : Json.Numeral)
  | string (text : Option String)
  | array (items : List Json)
  | object (members : List (Option String × Json))
deriving Inhabited

namespace Json

/-- A member of an object: its key, if the key is text, and its value. -/
abbrev Member :=
  Option String × Json

def text (value : String) : Json :=
  .string (some value)

def natural (value : Nat) : Json :=
  .number (.ofNat value)

def integer (value : Int) : Json :=
  .number (.ofInt value)

def member (key : String) (value : Json) : Member :=
  (some key, value)

end Json

end Parley
