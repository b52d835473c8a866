import Parley.Json.Basic
import Parley.Json.Fields
import Mathlib.Data.List.TakeWhile

/-!
# Numbers in documents

A numeral in proper form is read back as it was written, up to the first character that cannot go
on with it. Integers are written in proper form; those of 64 bits give their number back, and are
finite.
-/

namespace Parley.Json

namespace Numeral

/-- The text does not begin with a character of this kind. -/
def Avoids (kind : Char → Bool) (text : List Char) : Prop :=
  ∀ c ∈ text.head?, kind c = false

/-- The characters that a numeral may go on with. -/
def goesOn (c : Char) : Bool :=
  c.isDigit || c = '.' || c = 'e' || c = 'E'

/-- One digit or more. -/
def IsDigits (text : List Char) : Prop :=
  text ≠ [] ∧ ∀ c ∈ text, c.isDigit = true

/-- The parts of the numeral are digits as a document may have them. -/
structure Proper (numeral : Numeral) : Prop where
  whole : IsDigits numeral.whole
  leading : ∀ rest, numeral.whole = '0' :: rest → rest = []
  fraction : ∀ c ∈ numeral.fraction, c.isDigit = true
  exponent : ∀ exponent, numeral.exponent = some exponent → IsDigits exponent.digits

theorem Avoids.append {kind : Char → Bool} {front back : List Char} (hfront : Avoids kind front)
    (hback : Avoids kind back) : Avoids kind (front ++ back) := by
  cases front with
  | nil => exact hback
  | cons c rest => exact hfront

theorem Avoids.mono {kind kind' : Char → Bool} {text : List Char} (h : Avoids kind text)
    (hkind : ∀ c, kind' c = true → kind c = true) : Avoids kind' text := by
  intro c hc
  exact Bool.eq_false_iff.mpr fun hc' => Bool.eq_false_iff.mp (h c hc) (hkind c hc')

theorem digits_append {run rest : List Char} (hrun : ∀ c ∈ run, c.isDigit = true)
    (hrest : Avoids Char.isDigit rest) : digits (run ++ rest) = (run, rest) := by
  have hnone : rest.takeWhile Char.isDigit = [] ∧ rest.dropWhile Char.isDigit = rest := by
    cases rest with
    | nil => exact ⟨rfl, rfl⟩
    | cons c rest => simp [hrest c rfl]
  rw [digits, List.takeWhile_append_of_pos hrun, List.dropWhile_append_of_pos hrun, hnone.1,
    hnone.2, List.append_nil]

theorem ne_of_isDigit {c d : Char} (hc : c.isDigit = true) (hd : d.isDigit = false) : c ≠ d := by
  rintro rfl
  exact Bool.false_ne_true (hd.symm.trans hc)

theorem IsDigits.exists_cons {run : List Char} (h : IsDigits run) :
    ∃ c rest, run = c :: rest ∧ c.isDigit = true := by
  obtain ⟨c, rest, rfl⟩ := List.exists_cons_of_ne_nil h.1
  exact ⟨c, rest, rfl, h.2 c List.mem_cons_self⟩

theorem sign_append {run : List Char} (hrun : IsDigits run) (negative : Bool) (rest : List Char) :
    sign ((if negative then ['-'] else []) ++ (run ++ rest)) = (negative, run ++ rest) := by
  cases negative with
  | true => rfl
  | false =>
    obtain ⟨c, run, rfl, hc⟩ := hrun.exists_cons
    have hminus : c ≠ '-' := ne_of_isDigit hc rfl
    simp [sign, hminus]

theorem whole?_append {run rest : List Char} (hrun : IsDigits run)
    (hleading : ∀ back, run = '0' :: back → back = []) (hrest : Avoids Char.isDigit rest) :
    whole? (run ++ rest) = some (run, rest) := by
  rw [whole?, digits_append hrun.2 hrest]
  split
  · next h => exact absurd (Prod.mk.inj h).1 hrun.1
  · next h => exact absurd (hleading _ (Prod.mk.inj h).1) (by simp)
  · rfl

theorem fraction?_append {run rest : List Char} (hrun : ∀ c ∈ run, c.isDigit = true)
    (hrest : Avoids (fun c => c.isDigit || c = '.') rest) :
    fraction? ((if run = [] then [] else '.' :: run) ++ rest) = some (run, rest) := by
  by_cases hempty : run = []
  · subst hempty
    cases rest with
    | nil => rfl
    | cons c rest =>
      have hc : c ≠ '.' := by
        rintro rfl
        exact absurd (hrest '.' rfl) (by decide)
      simp [fraction?, hc]
  · rw [if_neg hempty, List.cons_append, fraction?,
      digits_append hrun (hrest.mono fun c hc => by simp [hc])]
    split
    · next h => exact absurd (Prod.mk.inj h).1 hempty
    · rfl

theorem exponentSign_append {run : List Char} (hrun : IsDigits run) (negative : Bool)
    (rest : List Char) :
    exponentSign ((if negative then ['-'] else []) ++ (run ++ rest)) = (negative, run ++ rest) := by
  cases negative with
  | true => rfl
  | false =>
    obtain ⟨c, run, rfl, hc⟩ := hrun.exists_cons
    have hminus : c ≠ '-' := ne_of_isDigit hc rfl
    have hplus : c ≠ '+' := ne_of_isDigit hc rfl
    simp [exponentSign, hminus, hplus]

theorem exponent?_of_avoids {rest : List Char} (hrest : Avoids goesOn rest) :
    exponent? rest = some (none, rest) := by
  cases rest with
  | nil => rfl
  | cons c rest =>
    have hc := hrest c rfl
    simp only [goesOn, Bool.or_eq_false_iff, decide_eq_false_iff_not] at hc
    rw [exponent?, if_neg (by simp [hc])]

theorem exponent?_append {exponent : Exponent} (h : IsDigits exponent.digits) {rest : List Char}
    (hrest : Avoids Char.isDigit rest) :
    exponent? ('e' :: ((if exponent.negative then ['-'] else []) ++ (exponent.digits ++ rest))) =
      some (some exponent, rest) := by
  rw [exponent?, if_pos (.inl rfl)]
  simp only [exponentSign_append h, digits_append h.2 hrest]
  split
  · next hempty => exact absurd (Prod.mk.inj hempty).1 h.1
  · next heq =>
    obtain ⟨rfl, rfl⟩ := Prod.mk.inj heq
    rfl

/-- A numeral in proper form is read back, whatever follows it that it cannot go on with. -/
theorem read?_toText_append {numeral : Numeral} (h : numeral.Proper) {rest : List Char}
    (hrest : Avoids goesOn rest) :
    read? (numeral.toText ++ rest) = some (numeral, rest) := by
  obtain ⟨negative, whole, fraction, exponent⟩ := numeral
  obtain ⟨tail, htext, hexponent, htail⟩ : ∃ tail,
      toText ⟨negative, whole, fraction, exponent⟩ ++ rest =
        (if negative then ['-'] else []) ++
          (whole ++ ((if fraction = [] then [] else '.' :: fraction) ++ tail)) ∧
      exponent? tail = some (exponent, rest) ∧ Avoids (fun c => c.isDigit || c = '.') tail := by
    cases exponent with
    | none =>
      refine ⟨rest, by simp [toText], exponent?_of_avoids hrest, hrest.mono fun c hc => ?_⟩
      simp only [goesOn, hc, Bool.true_or]
    | some exponent =>
      have hdigits := h.exponent exponent rfl
      have hstop : Avoids Char.isDigit rest := hrest.mono fun c hc => by simp [goesOn, hc]
      exact ⟨_, by simp [toText], exponent?_append hdigits hstop, by simp [Avoids]⟩
  have hfraction :
      Avoids Char.isDigit ((if fraction = [] then [] else '.' :: fraction) ++ tail) := by
    refine Avoids.append ?_ (htail.mono fun c hc => by simp [hc])
    split <;> simp [Avoids]
  rw [htext, read?]
  simp [sign_append h.whole, whole?_append h.whole h.leading hfraction,
    fraction?_append h.fraction htail, hexponent]

theorem eq_nil_of_toDigits {n : Nat} {rest : List Char} (h : Nat.toDigits 10 n = '0' :: rest) :
    rest = [] := by
  induction n using Nat.strongRecOn generalizing rest with
  | ind n ih =>
    by_cases hsmall : n < 10
    · rw [Nat.toDigits_of_lt_base hsmall] at h
      exact (List.cons.inj h).2.symm
    · rw [Nat.toDigits_of_base_le (by decide) (by omega)] at h
      obtain ⟨c, front, hfront⟩ := List.exists_cons_of_ne_nil (Nat.toDigits_ne_nil (n := n / 10))
      rw [hfront, List.cons_append] at h
      obtain ⟨rfl, -⟩ := List.cons.inj h
      -- The digits in front would be those of zero.
      obtain rfl := ih (n / 10) (by omega) hfront
      have hzero := Nat.ofDigitChars_ten_toDigits (n := n / 10)
      rw [hfront] at hzero
      have : n / 10 = 0 := hzero.symm
      omega

theorem proper_toDigits (negative : Bool) (n : Nat) :
    Proper ⟨negative, Nat.toDigits 10 n, [], none⟩ where
  whole := ⟨Nat.toDigits_ne_nil, fun _ => Nat.isDigit_of_mem_toDigits (by decide) (by decide)⟩
  leading := fun _ => eq_nil_of_toDigits
  fraction := by simp
  exponent := by simp

theorem integer?_ofNat {n : Nat} (h : n < 18446744073709551616) :
    integer? (ofNat n) = some (n : Int) := by
  simp [integer?, ofNat, Nat.ofDigitChars_ten_toDigits, h]

theorem integer?_ofInt {n : Int} (hleast : -9223372036854775808 ≤ n)
    (hgreatest : n < 18446744073709551616) : integer? (ofInt n) = some n := by
  have hvalue := Nat.ofDigitChars_ten_toDigits (n := n.natAbs)
  by_cases hnegative : n < 0
  · have hbounds : 0 < n.natAbs ∧ n.natAbs ≤ 9223372036854775808 := by omega
    simp only [integer?, ofInt, hvalue, hnegative, hbounds, and_self, decide_true, if_true]
    congr
    omega
  · have hbound : n.natAbs < 18446744073709551616 := by omega
    simp only [integer?, ofInt, hvalue, hnegative, hbound, and_self, decide_false, if_true,
      Bool.false_eq_true, if_false]
    congr
    omega

theorem le_ofDigitChars (run : List Char) (significand : Nat) :
    significand ≤ Nat.ofDigitChars 10 run significand := by
  induction run generalizing significand with
  | nil => exact Nat.le_refl _
  | cons c rest ih =>
    rw [Nat.ofDigitChars_cons]
    have hrest := ih (10 * significand + (c.toNat - '0'.toNat))
    omega

/-- Digits are taken into a significand to the last if the number that they come to fits. -/
theorem absorb_eq {run : List Char} {significand : Nat}
    (h : Nat.ofDigitChars 10 run significand < 18446744073709551616) :
    absorb significand run = (Nat.ofDigitChars 10 run significand, run.length) := by
  induction run generalizing significand with
  | nil => rfl
  | cons c rest ih =>
    rw [Nat.ofDigitChars_cons] at h
    have hnext := le_ofDigitChars rest (10 * significand + (c.toNat - '0'.toNat))
    have hfits : significand * 10 + (c.toNat - '0'.toNat) < 18446744073709551616 := by omega
    simp only [absorb, if_pos hfits]
    rw [Nat.mul_comm significand, ih h, Nat.ofDigitChars_cons, List.length_cons]

theorem round_le_two_mul (n : Nat) : Binary64.round n ≤ 2 * n := by
  simp only [Binary64.round]
  split
  · omega
  · next hlarge =>
    have hunit : 1 <<< (n.log2 - 52) ≤ n := by
      rw [Nat.one_shiftLeft]
      have hne : n ≠ 0 := by
        rintro rfl
        exact hlarge (by decide)
      calc 2 ^ (n.log2 - 52) ≤ 2 ^ n.log2 := Nat.pow_le_pow_right (by decide) (Nat.sub_le ..)
        _ ≤ n := Nat.log2_self_le hne
    have hdown := Nat.div_mul_le_self n (1 <<< (n.log2 - 52))
    split
    · rw [Nat.succ_mul]
      omega
    · omega

theorem isFinite_ofNat {n : Nat} (h : n < 18446744073709551616) : (ofNat n).isFinite = true := by
  have hvalue := Nat.ofDigitChars_ten_toDigits (n := n)
  have habsorb : absorb 0 (Nat.toDigits 10 n) = (n, (Nat.toDigits 10 n).length) := by
    rw [absorb_eq (by rwa [hvalue]), hvalue]
  have hscientific : (ofNat n).scientific = (n, 0) := by
    simp [scientific, ofNat, habsorb, absorb]
  rw [isFinite, hscientific]
  by_cases hzero : n = 0
  · simp [hzero]
  · have hround := round_le_two_mul n
    have hone : Binary64.round (Nat.pow 10 (0 : Int).toNat) = 1 := by decide
    have hoverflow : 36893488147419103232 ≤ Binary64.overflow := by decide +kernel
    simp only [Int.lt_irrefl, hzero, or_self, if_false, hone, Nat.mul_one]
    rw [if_neg (by decide)]
    exact decide_eq_true (by omega)

end Numeral

theorem natural?_natural {bound n : Nat} (h : n < bound) (hbound : bound ≤ 18446744073709551616) :
    natural? bound (.natural n) = some n := by
  have hnatural : Int.toNat? n = some n := rfl
  simp [natural?, natural, Numeral.integer?_ofNat (Nat.lt_of_lt_of_le h hbound), hnatural, h]

theorem int32?_integer {n : Int} (h : -2147483648 ≤ n ∧ n ≤ 2147483647) :
    int32? (.integer n) = some n := by
  have hinteger : (Numeral.ofInt n).integer? = some n :=
    Numeral.integer?_ofInt (by omega) (by omega)
  simp [int32?, integer?, integer, hinteger, h]

end Parley.Json
