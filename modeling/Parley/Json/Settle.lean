import Parley.Json.Basic

/-!
# Settled documents

Documents taken as a whole. Every part of such a document counts: all strings are text, no number
is infinite, containers do not nest too deep, and of members with the same key the last one stays.
-/

namespace Parley.Json

def lastMembers : List Member → List Member
  | [] => []
  | member :: rest =>
    if rest.any (·.1 = member.1) then lastMembers rest else member :: lastMembers rest

mutual

/-- The document with at most `depth` containers around any value. -/
def settle? (depth : Nat) : Json → Option Json
  | .null => some .null
  | .bool value => some (.bool value)
  | .number numeral => if numeral.isFinite then some (.number numeral) else none
  | .string none => none
  | .string (some text) => some (.string (some text))
  | .array items =>
    match depth with
    | 0 => none
    | depth + 1 => (settleItems? depth items).map .array
  | .object members =>
    match depth with
    | 0 => none
    | depth + 1 => (settleMembers? depth members).map fun members => .object (lastMembers members)

def settleItems? (depth : Nat) : List Json → Option (List Json)
  | [] => some []
  | item :: rest => do
    let item ← settle? depth item
    let rest ← settleItems? depth rest
    some (item :: rest)

def settleMembers? (depth : Nat) : List Member → Option (List Member)
  | [] => some []
  | (none, _) :: _ => none
  | (some key, value) :: rest => do
    let value ← settle? depth value
    let rest ← settleMembers? depth rest
    some ((some key, value) :: rest)

end

def depthLimit : Nat :=
  127

def get? (key : String) : Json → Option Json
  | .object members => (members.find? (·.1 = some key)).map (·.2)
  | _ => none

end Parley.Json
