import Parley.Character
import Mathlib.Data.List.Infix

/-!
# Damage adds up

Hit points stop at zero after every damage, and yet what is left after many damages is what is left
after their sum: it does not depend on their order. As hit points are never below zero, no call for
damage leaves the numbers of 32 bits.
-/

namespace Parley

namespace Health

/-- A call for damage in numbers of 32 bits, for which there must be a difference. It keeps the hit
points that are left and returns them. -/
def strike? (health : Health) (amount : Int32) : Option (Int × Health) :=
  let difference := health.current - max amount.toInt 0
  if Int32.minValue.toInt ≤ difference ∧ difference ≤ Int32.maxValue.toInt then
    let left := max difference 0
    some (left, { health with current := left })
  else none

/-- One call after another, with what they return. -/
def strikeAll? (health : Health) : List Int32 → Option (List Int × Health)
  | [] => some ([], health)
  | amount :: rest => do
    let (left, health) ← health.strike? amount
    let (returned, health) ← health.strikeAll? rest
    some (left :: returned, health)

/-- The sum of the damages that count. -/
def toll : List Int32 → Int
  | [] => 0
  | amount :: rest => max amount.toInt 0 + toll rest

theorem toll_nonneg (amounts : List Int32) : 0 ≤ toll amounts := by
  induction amounts with
  | nil => exact Int.le_refl 0
  | cons amount rest ih =>
    rw [toll]
    omega

theorem toll_perm {amounts others : List Int32} (h : others.Perm amounts) :
    toll others = toll amounts := by
  induction h with
  | nil => rfl
  | cons amount _ ih => rw [toll, toll, ih]
  | swap amount other rest =>
    simp only [toll]
    omega
  | trans _ _ ihfirst ihsecond => exact ihfirst.trans ihsecond

/-- Hit points as a call finds them and leaves them. -/
def InBounds (health : Health) : Prop :=
  0 ≤ health.current ∧ health.current ≤ Int32.maxValue.toInt

variable {health : Health}

theorem current_damage_le (h : health.InBounds) (amount : Int) :
    (health.damage amount).current ≤ health.current := by
  have hlow := h.1
  rw [current_damage]
  omega

theorem InBounds.damage (h : health.InBounds) (amount : Int) : (health.damage amount).InBounds := by
  have hle := current_damage_le h amount
  have hhigh := h.2
  refine ⟨?_, by omega⟩
  rw [current_damage]
  omega

theorem strike?_eq (h : health.InBounds) (amount : Int32) :
    health.strike? amount =
      some ((health.damage amount.toInt).current, health.damage amount.toInt) := by
  have hamount := amount.toInt_le
  have hlow : Int32.minValue.toInt = -Int32.maxValue.toInt - 1 := by decide
  obtain ⟨hcurrent, hhigh⟩ := h
  rw [strike?, if_pos (by omega)]
  rfl

end Health

namespace Player

/-- The player after damages. -/
def struck (player : Player) (amounts : List Int32) : Player :=
  amounts.foldl (fun player amount => player.damage amount.toInt) player

variable {player : Player}

theorem struck_cons (player : Player) (amount : Int32) (rest : List Int32) :
    player.struck (amount :: rest) = (player.damage amount.toInt).struck rest := rfl

theorem struck_append (player : Player) (dealt later : List Int32) :
    player.struck (dealt ++ later) = (player.struck dealt).struck later :=
  List.foldl_append

/-- Stopping at zero after every damage or once for all of them comes to the same. -/
theorem struck_eq (h : player.health.InBounds) (amounts : List Int32) :
    player.struck amounts =
      { player with
        health.current := max (player.health.current - Health.toll amounts) 0 } := by
  induction amounts generalizing player with
  | nil =>
    have hlow := h.1
    have hleft : max (player.health.current - 0) 0 = player.health.current := by omega
    rw [Health.toll, hleft]
    rfl
  | cons amount rest ih =>
    -- What is still to come takes nothing below zero back, so the first stop at zero makes no
    -- difference to the last one.
    have htoll := Health.toll_nonneg rest
    have hleft : max (max (player.health.current - max amount.toInt 0) 0 - Health.toll rest) 0 =
        max (player.health.current - (max amount.toInt 0 + Health.toll rest)) 0 := by omega
    rw [struck_cons, ih (h.damage _), Health.toll, ← hleft]
    rfl

/-- The hit points after each of the damages. -/
def healthAfterEach (player : Player) (amounts : List Int32) : List Int :=
  amounts.inits.tail.map fun dealt => (player.struck dealt).health.current

theorem healthAfterEach_cons (player : Player) (amount : Int32) (rest : List Int32) :
    player.healthAfterEach (amount :: rest) =
      (player.damage amount.toInt).health.current ::
        (player.damage amount.toInt).healthAfterEach rest := by
  have hinits : rest.inits = [] :: rest.inits.tail := by cases rest <;> simp
  rw [healthAfterEach, List.inits_cons, List.tail_cons, List.map_map, hinits]
  rfl

theorem strikeAll?_eq (h : player.health.InBounds) (amounts : List Int32) :
    player.health.strikeAll? amounts =
      some (player.healthAfterEach amounts, (player.struck amounts).health) := by
  induction amounts generalizing player with
  | nil => rfl
  | cons amount rest ih =>
    have hrest : (player.damage amount.toInt).health.strikeAll? rest = some (_, _) :=
      ih (h.damage _)
    rw [healthAfterEach_cons, struck_cons, Health.strikeAll?, Health.strike?_eq h]
    change ((player.damage amount.toInt).health.strikeAll? rest).bind _ = _
    rw [hrest]
    rfl

theorem isChain_healthAfterEach (h : player.health.InBounds) (amounts : List Int32) :
    (player.health.current :: player.healthAfterEach amounts).IsChain (· ≥ ·) := by
  induction amounts generalizing player with
  | nil => exact .singleton _
  | cons amount rest ih =>
    rw [healthAfterEach_cons]
    exact .cons_cons (Health.current_damage_le h _) (ih (h.damage _))

theorem exists_of_mem_healthAfterEach {left : Int} {amounts : List Int32}
    (h : left ∈ player.healthAfterEach amounts) :
    ∃ dealt later, amounts = dealt ++ later ∧ left = (player.struck dealt).health.current := by
  obtain ⟨dealt, hdealt, rfl⟩ := List.mem_map.mp h
  obtain ⟨later, rfl⟩ := (List.mem_inits _ _).mp (List.mem_of_mem_tail hdealt)
  exact ⟨dealt, later, rfl, rfl⟩

theorem inBounds_struck (h : player.health.InBounds) (amounts : List Int32) :
    (player.struck amounts).health.InBounds := by
  induction amounts generalizing player with
  | nil => exact h
  | cons amount rest ih => exact ih (h.damage _)

theorem isAlive_struck_of_dead (hdead : player.health.current = 0) (amounts : List Int32) :
    (player.struck amounts).isAlive = false := by
  have hbounds : player.health.InBounds := by
    rw [Health.InBounds, hdead]
    decide
  have htoll := Health.toll_nonneg amounts
  rw [struck_eq hbounds, isAlive, decide_eq_false_iff_not, hdead]
  change ¬0 < max (0 - Health.toll amounts) 0
  omega

/-- What calls for damage come to: what they return, and who is left. -/
structure Wears (player : Player) (amounts : List Int32) (returned : List Int) : Prop where
  runs : player.health.strikeAll? amounts = some (returned, (player.struck amounts).health)
  returned_eq : returned = player.healthAfterEach amounts
  current_eq : (player.struck amounts).health.current =
    max (player.health.current - Health.toll amounts) 0
  maximum_eq : (player.struck amounts).health.maximum = player.health.maximum
  falling : (player.health.current :: returned).IsChain (· ≥ ·)
  nonneg : ∀ left ∈ returned, 0 ≤ left
  reordered : ∀ others : List Int32, others.Perm amounts →
    player.struck others = player.struck amounts
  dead : 0 ∈ returned → (player.struck amounts).isAlive = false

/-- From hit points between zero and the greatest number of 32 bits, every call for damage succeeds
and returns the hit points that it leaves. In the end the damages above zero have been taken off
together, in whatever order they came, but never below zero. -/
theorem damages_add_up (player : Player) (hlow : 0 ≤ player.health.current)
    (hhigh : player.health.current ≤ Int32.maxValue.toInt) (amounts : List Int32) :
    ∃ returned, player.Wears amounts returned := by
  have h : player.health.InBounds := ⟨hlow, hhigh⟩
  refine ⟨player.healthAfterEach amounts, strikeAll?_eq h amounts, rfl, ?_, ?_,
    isChain_healthAfterEach h amounts, ?_, ?_, ?_⟩
  · rw [struck_eq h]
  · rw [struck_eq h]
  · intro left hleft
    obtain ⟨dealt, -, -, rfl⟩ := exists_of_mem_healthAfterEach hleft
    exact (inBounds_struck h dealt).1
  · intro others hperm
    rw [struck_eq h, struck_eq h, Health.toll_perm hperm]
  · intro hzero
    obtain ⟨dealt, later, rfl, hdead⟩ := exists_of_mem_healthAfterEach hzero
    rw [struck_append]
    exact isAlive_struck_of_dead hdead.symm later

def hero : Player :=
  ⟨.nil, "Hero", 1, "Recruit", .full, .empty⟩

theorem hero_worn :
    0 ≤ hero.health.current ∧ hero.health.current ≤ Int32.maxValue.toInt ∧
      ∃ returned, hero.Wears [Int32.minValue, 30, Int32.maxValue, 5] returned ∧
        returned = [100, 70, 0, 0] := by
  have hlow : 0 ≤ hero.health.current := by decide
  have hhigh : hero.health.current ≤ Int32.maxValue.toInt := by decide
  obtain ⟨returned, hwears⟩ :=
    damages_add_up hero hlow hhigh [Int32.minValue, 30, Int32.maxValue, 5]
  refine ⟨hlow, hhigh, returned, hwears, ?_⟩
  rw [hwears.returned_eq]
  decide

end Player

end Parley
