import Parley.Json.Basic

/-!
# Fields of documents

Reading values out of documents. A structure is an object with a member for each of its fields, or
an array of the fields in their order. Members with other names are passed over, but no field may
be given twice, and every name must be text. In an array the last fields may be left out.
-/

namespace Parley.Json

def text? : Json → Option String
  | .string text => text
  | _ => none

def integer? (least greatest : Int) : Json → Option Int
  | .number numeral => numeral.integer?.filter fun n => least ≤ n ∧ n ≤ greatest
  | _ => none

def int32? : Json → Option Int :=
  integer? (-2147483648) 2147483647

def natural? (bound : Nat) : Json → Option Nat
  | .number numeral => (numeral.integer?.bind Int.toNat?).filter (· < bound)
  | _ => none

def word32? (json : Json) : Option UInt32 :=
  (natural? 4294967296 json).map UInt32.ofNat

def word64? : Json → Option Nat :=
  natural? 18446744073709551616

def list? {α : Type} (item? : Json → Option α) : Json → Option (List α)
  | .array items => items.mapM item?
  | _ => none

def fields? (names : List String) : Json → Option (List (Option Json))
  | .array items =>
    if items.length ≤ names.length then
      some (items.map some ++ List.replicate (names.length - items.length) none)
    else none
  | .object members =>
    if members.all (·.1.isSome) ∧ ∀ name ∈ names, members.countP (·.1 = some name) ≤ 1 then
      some (names.map fun name => (members.find? (·.1 = some name)).map (·.2))
    else none
  | _ => none

/-- The value of a field, or the default if the field is not given. -/
def orElse {α : Type} (default : α) (value? : Json → Option α) : Option Json → Option α
  | none => some default
  | some json => value? json

end Parley.Json
