import Parley.Text.Binary64
import Parley.Text.Decimal

/-!
# JSON numbers

Numbers as JSON documents write them. A number without fraction and exponent is an integer if it
fits 64 bits, with a sign if it is negative and without one if it is not. Any other number, minus
zero included, is a floating point number and has to be finite.
-/

namespace Parley.Json

structure Exponent where
  negative : Bool
  digits : List Char
deriving DecidableEq

structure Numeral where
  negative : Bool
  whole : List Char
  /-- The digits after the point; there is a point if there are any. -/
  fraction : List Char
  exponent : Option Exponent
deriving DecidableEq

namespace Numeral

def digits (text : List Char) : List Char × List Char :=
  (text.takeWhile Char.isDigit, text.dropWhile Char.isDigit)

def sign : List Char → Bool × List Char
  | '-' :: rest => (true, rest)
  | text => (false, text)

/-- A whole part begins with zero only if it is zero. -/
def whole? (text : List Char) : Option (List Char × List Char) :=
  match digits text with
  | ([], _) => none
  | ('0' :: _ :: _, _) => none
  | parts => some parts

def fraction? : List Char → Option (List Char × List Char)
  | '.' :: text =>
    match digits text with
    | ([], _) => none
    | parts => some parts
  | text => some ([], text)

def exponentSign : List Char → Bool × List Char
  | '-' :: rest => (true, rest)
  | '+' :: rest => (false, rest)
  | text => (false, text)

def exponent? : List Char → Option (Option Exponent × List Char)
  | c :: text =>
    if c = 'e' ∨ c = 'E' then
      let (negative, text) := exponentSign text
      match digits text with
      | ([], _) => none
      | (digits, rest) => some (some ⟨negative, digits⟩, rest)
    else some (none, c :: text)
  | [] => some (none, [])

def read? (text : List Char) : Option (Numeral × List Char) := do
  let (negative, text) := sign text
  let (whole, text) ← whole? text
  let (fraction, text) ← fraction? text
  let (exponent, text) ← exponent? text
  some (⟨negative, whole, fraction, exponent⟩, text)

def toText (numeral : Numeral) : List Char :=
  (if numeral.negative then ['-'] else []) ++ numeral.whole
    ++ (if numeral.fraction = [] then [] else '.' :: numeral.fraction)
    ++ match numeral.exponent with
      | none => []
      | some exponent => 'e' :: (if exponent.negative then ['-'] else []) ++ exponent.digits

def ofNat (n : Nat) : Numeral :=
  ⟨false, Nat.toDigits 10 n, [], none⟩

def ofInt (n : Int) : Numeral :=
  ⟨n < 0, Nat.toDigits 10 n.natAbs, [], none⟩

def integer? (numeral : Numeral) : Option Int :=
  if numeral.fraction = [] ∧ numeral.exponent = none then
    let magnitude := Nat.ofDigitChars 10 numeral.whole 0
    if numeral.negative then
      if 0 < magnitude ∧ magnitude ≤ 9223372036854775808 then some (-magnitude) else none
    else if magnitude < 18446744073709551616 then some magnitude
    else none
  else none

/-- Take digits into a significand for as long as it fits 64 bits, and count them. -/
def absorb (significand : Nat) : List Char → Nat × Nat
  | [] => (significand, 0)
  | c :: rest =>
    let next := significand * 10 + (c.toNat - '0'.toNat)
    if next < 18446744073709551616 then
      let (significand, count) := absorb next rest
      (significand, count + 1)
    else (significand, 0)

/-- The significand and the power of ten to which the number comes, with digits that do not fit the
significand dropped. -/
def scientific (numeral : Numeral) : Nat × Int :=
  let (significand, before) := absorb 0 numeral.whole
  let (significand, behind) := absorb significand numeral.fraction
  let written : Int :=
    match numeral.exponent with
    | none => 0
    | some exponent =>
      let value : Int := Nat.ofDigitChars 10 exponent.digits 0
      if exponent.negative then -value else value
  (significand, (numeral.whole.length - before : Nat) - (behind : Nat) + written)

/-- Whether the number stays finite when its significand and its power of ten are rounded and
multiplied. -/
def isFinite (numeral : Numeral) : Bool :=
  let (significand, power) := numeral.scientific
  if power < 0 ∨ significand = 0 then true
  else if 308 < power then false
  else Binary64.round significand * Binary64.round (Nat.pow 10 power.toNat) < Binary64.overflow

theorem length_digits_snd_le (text : List Char) : (digits text).2.length ≤ text.length := by
  simpa [digits] using (List.dropWhile_sublist Char.isDigit).length_le

theorem length_sign_snd_le (text : List Char) : (sign text).2.length ≤ text.length := by
  unfold sign
  split <;> simp

theorem length_exponentSign_snd_le (text : List Char) :
    (exponentSign text).2.length ≤ text.length := by
  unfold exponentSign
  split <;> simp

theorem length_of_whole? {text rest whole : List Char} (h : whole? text = some (whole, rest)) :
    rest.length < text.length := by
  have htotal := congrArg List.length
    (List.takeWhile_append_dropWhile (p := Char.isDigit) (l := text))
  simp only [whole?, digits] at h
  split at h
  · simp at h
  · simp at h
  · next parts hnonempty _ =>
    obtain ⟨rfl, rfl⟩ := Prod.mk.inj (Option.some.inj h)
    have hwhole : text.takeWhile Char.isDigit ≠ [] := fun hempty => hnonempty _ (by rw [hempty])
    have hpositive := List.length_pos_iff.mpr hwhole
    rw [List.length_append] at htotal
    omega

theorem length_of_fraction? {text rest fraction : List Char}
    (h : fraction? text = some (fraction, rest)) : rest.length ≤ text.length := by
  unfold fraction? at h
  split at h
  · next text =>
    split at h
    · simp at h
    · have hdigits := length_digits_snd_le text
      rw [Option.some.inj h] at hdigits
      simpa using Nat.le_succ_of_le hdigits
  · obtain ⟨-, rfl⟩ := Prod.mk.inj (Option.some.inj h)
    exact Nat.le_refl _

theorem length_of_exponent? {text rest : List Char} {exponent : Option Exponent}
    (h : exponent? text = some (exponent, rest)) : rest.length ≤ text.length := by
  unfold exponent? at h
  split at h
  · next c text =>
    have hsign := length_exponentSign_snd_le text
    have hdigits := length_digits_snd_le (exponentSign text).2
    split at h
    · dsimp only at h
      split at h
      · exact absurd h (by simp)
      · next hparts =>
        obtain ⟨-, rfl⟩ := Prod.mk.inj (Option.some.inj h)
        rw [hparts] at hdigits
        exact Nat.le_trans hdigits (Nat.le_succ_of_le hsign)
    · obtain ⟨-, rfl⟩ := Prod.mk.inj (Option.some.inj h)
      exact Nat.le_refl _
  · obtain ⟨-, rfl⟩ := Prod.mk.inj (Option.some.inj h)
    exact Nat.le_refl _

theorem length_of_read? {text rest : List Char} {numeral : Numeral}
    (h : read? text = some (numeral, rest)) : rest.length < text.length := by
  simp only [read?, Option.bind_eq_bind, Option.bind_eq_some_iff, Option.some.injEq,
    Prod.mk.injEq] at h
  obtain ⟨⟨whole, a⟩, hwhole, ⟨fraction, b⟩, hfraction, ⟨exponent, c⟩, hexponent, -, rfl⟩ := h
  have hsign := length_sign_snd_le text
  have hbehind := length_of_whole? hwhole
  have hbehind' := length_of_fraction? hfraction
  have hbehind'' := length_of_exponent? hexponent
  dsimp only at *
  omega

end Numeral

end Parley.Json
