/-!
# Finite numbers

The range of floating point numbers of 64 bits, decided with exact integers.
-/

namespace Parley.Binary64

/-- The nearest number with at most 53 significant bits; of two at the same distance, the one whose
last bit is even. -/
def round (n : Nat) : Nat :=
  if n < 1 <<< 53 then n
  else
    let unit := 1 <<< (n.log2 - 52)
    let quotient := n / unit
    let excess := 2 * (n % unit)
    if unit < excess ∨ (unit = excess ∧ quotient % 2 = 1) then (quotient + 1) * unit
    else quotient * unit

/-- The least number that rounds beyond the greatest finite one. -/
def overflow : Nat :=
  (1 <<< 1024) - (1 <<< 970)

/-- Whether a significand times a power of ten rounds beyond the greatest finite number. Only when
the number of digits before the point does not tell is the product looked at. -/
def exceeds (significand : Nat) (power : Int) : Bool :=
  let places := (Nat.toDigits 10 significand).length + power
  if significand = 0 ∨ places ≤ 308 then false
  else if 310 < places then true
  else overflow * Nat.pow 10 (-power).toNat ≤ significand * Nat.pow 10 power.toNat

end Parley.Binary64
