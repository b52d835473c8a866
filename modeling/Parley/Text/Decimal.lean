/-!
# Decimal numerals

A numeral is one or more ASCII digits, leading zeros allowed, after an optional sign. A reader
answers only with numbers inside its bounds, and reads the whole text or nothing.
-/

namespace Parley.Decimal

/-- The number written by a non-empty run of digits. -/
def magnitude? (text : List Char) : Option Nat :=
  if text ≠ [] ∧ text.all Char.isDigit then some (Nat.ofDigitChars 10 text 0) else none

/-- A number below `bound`, after an optional plus sign. -/
def natural? (bound : Nat) : List Char → Option Nat
  | '+' :: digits => (magnitude? digits).filter (· < bound)
  | digits => (magnitude? digits).filter (· < bound)

/-- A number from `least` to `greatest`, after an optional plus or minus sign. -/
def integer? (least greatest : Int) (text : List Char) : Option Int :=
  let number : Option Int :=
    match text with
    | '+' :: digits => (magnitude? digits).map Int.ofNat
    | '-' :: digits => (magnitude? digits).map fun n => -Int.ofNat n
    | digits => (magnitude? digits).map Int.ofNat
  number.filter fun n => least ≤ n ∧ n ≤ greatest

def int32? : List Char → Option Int :=
  integer? (-2147483648) 2147483647

def word64? : List Char → Option Nat :=
  natural? 18446744073709551616

end Parley.Decimal
