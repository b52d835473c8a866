import Parley.Text.Binary64
import Parley.Toml.Text

/-!
# TOML scalars

Numbers, truth values, dates and times of TOML. No setting has such a value, so it is enough to
know which texts are well formed and in range.
-/

namespace Parley.Toml

open Scanner

/-- Digits, between which single underscores may stand. -/
def digitRun (isDigit : Char → Bool) : Scanner (List Char) := do
  let first ← satisfy isDigit
  let others ← many (satisfy isDigit <|> (char '_' *> satisfy isDigit))
  pure (first :: others)

def sign : Scanner Bool :=
  (char '-' *> pure true) <|> (char '+' *> pure false) <|> pure false

/-- The sign and the digits of a decimal number, which begins with zero only if it is zero. -/
def decimal : Scanner (Bool × List Char) := do
  let negative ← sign
  let digits ← (ahead (satisfy (· ≠ '0')) *> digitRun Char.isDigit) <|> (do pure [← char '0'])
  pure (negative, digits)

def integerBound : Nat :=
  9223372036854775808

def decimalInteger : Scanner Unit := do
  let (negative, digits) ← decimal
  let magnitude := Nat.ofDigitChars 10 digits 0
  if magnitude < integerBound ∨ (negative ∧ magnitude = integerBound) then pure () else failure

/-- An integer in another base, which has no sign. -/
def basedInteger (mark : String) (base : Nat) (isDigit : Char → Bool) : Scanner Unit := do
  word mark
  let digits ← digitRun isDigit
  if digits.foldl (fun number digit => number * base + hexValue digit) 0 < integerBound then pure ()
  else failure

def integer : Scanner Unit :=
  basedInteger "0x" 16 isHexDigit
    <|> basedInteger "0o" 8 (fun c => '0' ≤ c && c ≤ '7')
    <|> basedInteger "0b" 2 (fun c => c = '0' || c = '1')
    <|> decimalInteger

def exponent : Scanner Int := do
  let _ ← char 'e' <|> char 'E'
  let negative ← sign
  let digits ← digitRun Char.isDigit
  let value : Int := Nat.ofDigitChars 10 digits 0
  pure (if negative then -value else value)

/-- The digits after the point and the exponent, of which a number has at least one. -/
def fractional : Scanner (List Char × Int) :=
  (do
    let power ← exponent
    pure ([], power))
  <|> (do
    let _ ← char '.'
    let digits ← digitRun Char.isDigit
    let power ← exponent <|> pure 0
    pure (digits, power))

/-- A floating point number. One that rounds to infinity is refused, though its negative is not. -/
def finite : Scanner Unit := do
  let (negative, whole) ← decimal
  let (fraction, power) ← fractional
  let significand := Nat.ofDigitChars 10 (whole ++ fraction) 0
  if !negative && Binary64.exceeds significand (power - fraction.length) then failure else pure ()

def float : Scanner Unit :=
  finite <|> (sign *> (word "inf" <|> word "nan"))

def boolean : Scanner Unit :=
  word "true" <|> word "false"

def fixedDigits : Nat → Nat → Scanner Nat
  | 0, number => pure number
  | count + 1, number => do
    let digit ← satisfy Char.isDigit
    fixedDigits count (number * 10 + (digit.toNat - 48))

def twoDigits (least greatest : Nat) : Scanner Unit := do
  let number ← fixedDigits 2 0
  if least ≤ number ∧ number ≤ greatest then pure () else failure

def isLeap (year : Nat) : Bool :=
  year % 4 = 0 ∧ (year % 100 ≠ 0 ∨ year % 400 = 0)

def daysIn (year month : Nat) : Nat :=
  match month with
  | 2 => if isLeap year then 29 else 28
  | 4 | 6 | 9 | 11 => 30
  | _ => 31

def date : Scanner Unit := do
  let year ← fixedDigits 4 0
  let _ ← char '-'
  let month ← fixedDigits 2 0
  let _ ← char '-'
  let day ← fixedDigits 2 0
  if 1 ≤ month ∧ month ≤ 12 ∧ 1 ≤ day ∧ day ≤ daysIn year month then pure () else failure

/-- A time of day; a minute may have a leap second. -/
def time : Scanner Unit := do
  twoDigits 0 23
  let _ ← char ':'
  twoDigits 0 59
  let _ ← char ':'
  twoDigits 0 60
  let _ ← optional (char '.' *> takeSome Char.isDigit)

def offset : Scanner Unit :=
  (do let _ ← char 'Z' <|> char 'z')
  <|> (do
    let _ ← char '+' <|> char '-'
    twoDigits 0 23
    let _ ← char ':'
    twoDigits 0 59)

def moment : Scanner Unit :=
  (do
    date
    let _ ← optional (do
      let _ ← char 'T' <|> char 't' <|> char ' '
      time
      let _ ← optional offset))
  <|> time

def scalar : Scanner Unit :=
  moment <|> float <|> integer <|> boolean

end Parley.Toml
