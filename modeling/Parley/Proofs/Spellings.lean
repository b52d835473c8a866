import Parley.Text.Blank
import Parley.Text.Decimal
import Mathlib.Data.List.TakeWhile

/-!
# How numbers are spelled

A reader of numbers takes one digit or more after a sign that it allows, and nothing else. Digits
come to a number exactly when they are the digits that it is written with, after any zeros. Trimming
takes the blanks off both ends of a text and leaves a spelled number, which has none, as it is.
-/

namespace Parley

namespace Decimal

/-- The text is one digit or more, and they come to this number. -/
structure Denotes (text : List Char) (n : Nat) : Prop where
  ne_nil : text ≠ []
  isDigit : ∀ c ∈ text, c.isDigit = true
  value : Nat.ofDigitChars 10 text 0 = n

/-- Digits for the number, after a plus sign or none. -/
inductive Spells : List Char → Nat → Prop
  | bare {digits : List Char} {n : Nat} (h : Denotes digits n) : Spells digits n
  | plus {digits : List Char} {n : Nat} (h : Denotes digits n) : Spells ('+' :: digits) n

variable {text digits rest : List Char} {n : Nat}

theorem magnitude?_eq_some_iff : magnitude? text = some n ↔ Denotes text n := by
  rw [magnitude?]
  constructor
  · intro h
    split at h
    · next hdigits => exact ⟨hdigits.1, List.all_eq_true.mp hdigits.2, Option.some.inj h⟩
    · cases h
  · intro h
    rw [if_pos ⟨h.ne_nil, List.all_eq_true.mpr h.isDigit⟩, h.value]

theorem Denotes.of_cons {c : Char} (h : Denotes (c :: rest) n) : c.isDigit = true :=
  h.isDigit c List.mem_cons_self

theorem spells_plus_iff : Spells ('+' :: digits) n ↔ Denotes digits n := by
  refine ⟨fun h => ?_, .plus⟩
  cases h with
  | bare h => exact absurd h.of_cons (by decide)
  | plus h => exact h

theorem spells_iff_denotes (hplus : ∀ digits, text ≠ '+' :: digits) :
    Spells text n ↔ Denotes text n := by
  refine ⟨fun h => ?_, .bare⟩
  cases h with
  | bare h => exact h
  | plus h => exact absurd rfl (hplus _)

theorem natural?_eq_some_iff {bound : Nat} :
    natural? bound text = some n ↔ Spells text n ∧ n < bound := by
  unfold natural?
  split <;> rw [Option.filter_eq_some_iff, magnitude?_eq_some_iff, decide_eq_true_iff]
  · rw [spells_plus_iff]
  · next hplus => rw [spells_iff_denotes hplus]

theorem digitChar_value {c : Char} (h : c.isDigit = true) :
    c.toNat - '0'.toNat < 10 ∧ Nat.digitChar (c.toNat - '0'.toNat) = c := by
  obtain ⟨hleast, hgreatest⟩ := Char.isDigit_iff_toNat.mp h
  have hzero : '0'.toNat = 48 := rfl
  have hnine : '9'.toNat = 57 := rfl
  have hlt : c.toNat - '0'.toNat < 10 := by omega
  refine ⟨hlt, Char.toNat_inj.mp ?_⟩
  rw [Nat.toNat_digitChar_of_lt_ten hlt]
  omega

/-- Digits that go on after those of a positive number are the last digits of what they come to. -/
theorem toDigits_ofDigitChars {front : Nat} (hfront : 0 < front)
    (hdigits : ∀ c ∈ digits, c.isDigit = true) :
    Nat.toDigits 10 (Nat.ofDigitChars 10 digits front) = Nat.toDigits 10 front ++ digits := by
  induction digits generalizing front with
  | nil => simp [Nat.ofDigitChars_nil]
  | cons c rest ih =>
    obtain ⟨hc, hrest⟩ := List.forall_mem_cons.mp hdigits
    obtain ⟨hlt, hchar⟩ := digitChar_value hc
    rw [Nat.ofDigitChars_cons, ih (by omega) hrest,
      ← Nat.toDigits_append_toDigits (by decide) hfront hlt, Nat.toDigits_of_lt_base hlt, hchar,
      List.append_assoc, List.singleton_append]

/-- Digits come to the number whose digits they are after the zeros in front. -/
theorem exists_zeros (hne : digits ≠ []) (hdigits : ∀ c ∈ digits, c.isDigit = true) :
    ∃ zeros, digits =
      List.replicate zeros '0' ++ Nat.toDigits 10 (Nat.ofDigitChars 10 digits 0) := by
  induction digits with
  | nil => exact absurd rfl hne
  | cons c rest ih =>
    obtain ⟨hc, hrest⟩ := List.forall_mem_cons.mp hdigits
    obtain ⟨hlt, hchar⟩ := digitChar_value hc
    rw [Nat.ofDigitChars_cons, Nat.mul_zero, Nat.zero_add]
    -- From the first digit that is not zero on, a zero is one of the number's own digits.
    by_cases hzero : c.toNat - '0'.toNat = 0
    · rw [hzero] at hchar ⊢
      by_cases hlast : rest = []
      · exact ⟨0, by simp [hlast, Nat.ofDigitChars_nil, ← hchar]⟩
      · obtain ⟨zeros, hzeros⟩ := ih hlast hrest
        refine ⟨zeros + 1, ?_⟩
        rw [List.replicate_succ, List.cons_append, ← hzeros, ← hchar]
        rfl
    · refine ⟨0, ?_⟩
      rw [toDigits_ofDigitChars (Nat.pos_of_ne_zero hzero) hrest, Nat.toDigits_of_lt_base hlt,
        hchar]
      rfl

theorem denotes_iff :
    Denotes digits n ↔ ∃ zeros, digits = List.replicate zeros '0' ++ Nat.toDigits 10 n := by
  constructor
  · intro h
    obtain ⟨zeros, hzeros⟩ := exists_zeros h.ne_nil h.isDigit
    rw [h.value] at hzeros
    exact ⟨zeros, hzeros⟩
  · rintro ⟨zeros, rfl⟩
    refine ⟨?_, fun c hc => ?_, ?_⟩
    · simp [Nat.toDigits_ne_nil]
    · rcases List.mem_append.mp hc with hc | hc
      · rw [List.eq_of_mem_replicate hc]
        rfl
      · exact Nat.isDigit_of_mem_toDigits (by decide) (by decide) hc
    · rw [Nat.ofDigitChars_append, Nat.ofDigitChars_replicate_zero, Nat.mul_zero,
        Nat.ofDigitChars_ten_toDigits]

/-- A number is spelled by a plus sign or none, zeros, and the digits that it is written with. -/
theorem spells_iff :
    Spells text n ↔ ∃ sign zeros, (sign = [] ∨ sign = ['+']) ∧
      text = sign ++ (List.replicate zeros '0' ++ Nat.toDigits 10 n) := by
  constructor
  · intro h
    cases h with
    | bare h =>
      obtain ⟨zeros, rfl⟩ := denotes_iff.mp h
      exact ⟨[], zeros, .inl rfl, rfl⟩
    | plus h =>
      obtain ⟨zeros, rfl⟩ := denotes_iff.mp h
      exact ⟨['+'], zeros, .inr rfl, rfl⟩
  · rintro ⟨sign, zeros, hsign, rfl⟩
    have hdigits : Denotes (List.replicate zeros '0' ++ Nat.toDigits 10 n) n :=
      denotes_iff.mpr ⟨zeros, rfl⟩
    rcases hsign with rfl | rfl
    · exact .bare hdigits
    · exact .plus hdigits

end Decimal

namespace Blank

variable {front core back text : List Char}

theorem dropWhile_of_unblank (h : ∀ c ∈ text, isBlank c = false) :
    text.dropWhile isBlank = text := by
  cases text with
  | nil => rfl
  | cons c rest => simp [h c List.mem_cons_self]

theorem trimStart_append (hfront : ∀ c ∈ front, isBlank c = true) :
    trimStart (front ++ text) = trimStart text :=
  List.dropWhile_append_of_pos hfront

theorem trimEnd_append (hback : ∀ c ∈ back, isBlank c = true) :
    trimEnd (text ++ back) = trimEnd text := by
  rw [trimEnd, List.reverse_append, List.dropWhile_append_of_pos (by simpa using hback), trimEnd]

/-- Blanks on both sides are trimmed from a text that has none itself. -/
theorem trim_append (hfront : ∀ c ∈ front, isBlank c = true)
    (hback : ∀ c ∈ back, isBlank c = true) (hcore : ∀ c ∈ core, isBlank c = false) :
    trim (front ++ (core ++ back)) = core := by
  have hend : trimEnd core = core := by
    rw [trimEnd, dropWhile_of_unblank (by simpa using hcore), List.reverse_reverse]
  rw [trim, trimStart_append hfront]
  cases core with
  | nil =>
    rw [List.nil_append, trimStart, List.dropWhile_eq_nil_iff.mpr hback]
    exact hend
  | cons c rest =>
    have hc : isBlank c = false := hcore c List.mem_cons_self
    have hstart : trimStart (c :: rest ++ back) = c :: rest ++ back := by
      simp [trimStart, hc]
    rw [hstart, trimEnd_append hback, hend]

/-- A text is what trimming leaves of it, with blanks on both sides. -/
theorem exists_trim (text : List Char) :
    ∃ front back, text = front ++ (trim text ++ back) ∧
      (∀ c ∈ front, isBlank c = true) ∧ ∀ c ∈ back, isBlank c = true := by
  let inner := trimStart text
  have hstart : text.takeWhile isBlank ++ inner = text := List.takeWhile_append_dropWhile
  have hend : trim text ++ (inner.reverse.takeWhile isBlank).reverse = inner := by
    have hparts := congrArg List.reverse
      (List.takeWhile_append_dropWhile (p := isBlank) (l := inner.reverse))
    rwa [List.reverse_append, List.reverse_reverse] at hparts
  refine ⟨text.takeWhile isBlank, (inner.reverse.takeWhile isBlank).reverse, ?_,
    fun c => List.mem_takeWhile_imp, fun c hc => ?_⟩
  · rw [hend, hstart]
  · exact List.mem_takeWhile_imp (List.mem_reverse.mp hc)

theorem unblank_of_isDigit {c : Char} (h : c.isDigit = true) : isBlank c = false := by
  obtain ⟨hleast, hgreatest⟩ := Char.isDigit_iff_toNat.mp h
  have hzero : '0'.toNat = 48 := rfl
  have hnine : '9'.toNat = 57 := rfl
  simp only [isBlank, ranges, List.any_cons, List.any_nil, Bool.or_eq_false_iff,
    Bool.and_eq_false_iff, decide_eq_false_iff_not, and_true]
  omega

end Blank

theorem Decimal.Spells.unblank {text : List Char} {n : Nat} (h : Spells text n) :
    ∀ c ∈ text, Blank.isBlank c = false := by
  cases h with
  | bare h => exact fun c hc => Blank.unblank_of_isDigit (h.isDigit c hc)
  | plus h =>
    refine List.forall_mem_cons.mpr ⟨by decide, fun c hc => ?_⟩
    exact Blank.unblank_of_isDigit (h.isDigit c hc)

end Parley
