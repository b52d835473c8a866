import Parley.Json.Basic

/-!
# Writing documents

The compact text of a document: no blanks, and in strings only quotes, backslashes and control
characters are escaped.
-/

namespace Parley.Json

def hexChar (d : Nat) : Char :=
  if d < 10 then Char.ofNat (48 + d) else Char.ofNat (87 + d)

def escape (c : Char) : List Char :=
  match c with
  | '"' => ['\\', '"']
  | '\\' => ['\\', '\\']
  | '\x08' => ['\\', 'b']
  | '\x0c' => ['\\', 'f']
  | '\n' => ['\\', 'n']
  | '\r' => ['\\', 'r']
  | '\t' => ['\\', 't']
  | c =>
    if c.toNat < 0x20 then
      ['\\', 'u', '0', '0', hexChar (c.toNat / 16), hexChar (c.toNat % 16)]
    else [c]

def quote (text : List Char) : List Char :=
  '"' :: text.flatMap escape ++ ['"']

/-- A string that is no text is written as the empty one. -/
def quoteText (text : Option String) : List Char :=
  quote ((text.getD "").toList)

mutual

def write : Json → List Char
  | .null => ['n', 'u', 'l', 'l']
  | .bool true => ['t', 'r', 'u', 'e']
  | .bool false => ['f', 'a', 'l', 's', 'e']
  | .number numeral => numeral.toText
  | .string text => quoteText text
  | .array [] => ['[', ']']
  | .array (item :: items) => '[' :: write item ++ writeItems items
  | .object [] => ['\x7b', '\x7d']
  | .object (member :: members) => '\x7b' :: writeMember member ++ writeMembers members

/-- The items after the first, and the end of the array. -/
def writeItems : List Json → List Char
  | [] => [']']
  | item :: items => ',' :: write item ++ writeItems items

def writeMember : Member → List Char
  | (key, value) => quoteText key ++ ':' :: write value

/-- The members after the first, and the end of the object. -/
def writeMembers : List Member → List Char
  | [] => ['\x7d']
  | member :: members => ',' :: writeMember member ++ writeMembers members

end

end Parley.Json
