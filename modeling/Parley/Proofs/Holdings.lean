import Parley.Inventory
import Mathlib.Data.List.Induction
import Mathlib.Data.List.Infix
import Mathlib.Data.List.Nodup
import Mathlib.Order.Bounds.Defs

/-!
# What an inventory holds

An inventory that began empty has been dealt with, item by item. It holds of each item what a
counter of this item alone comes to, in one stack, and no stack of what there is none of. The stacks
stand in the order in which their items came when there were none of them before.
-/

namespace Parley

/-- A call that changes what is held. -/
inductive Deal
  | add (item : String) (quantity : UInt32)
  | remove (item : String) (quantity : UInt32)
deriving DecidableEq

namespace Deal

def item : Deal → String
  | add item _ | remove item _ => item

/-- What the deal makes of the counter of its item: it is raised by the quantity, or lowered by as
much of the quantity as it has. -/
def count : Deal → Nat → Nat
  | add _ quantity, counter => counter + quantity.toNat
  | remove _ quantity, counter => counter - min counter quantity.toNat

end Deal

/-- The counter of an item after these deals, from zero on. -/
def tally (deals : List Deal) (item : String) : Nat :=
  deals.foldl (fun counter deal => if deal.item = item then deal.count counter else counter) 0

/-- After none of the deals is the counter of the item too great for 32 bits. -/
def TallyFits (deals : List Deal) (item : String) : Prop :=
  ∀ dealt, dealt <+: deals → tally dealt item ≤ 4294967295

instance (deals : List Deal) (item : String) : Decidable (TallyFits deals item) :=
  decidable_of_iff (deals.inits.all fun dealt => (tally dealt item).ble 4294967295)
    (by simp [TallyFits, List.mem_inits])

/-- The deal of this moment is the one that there was none of the item before, and some after. -/
def Arrives (deals : List Deal) (item : String) (moment : Nat) : Prop :=
  tally (deals.take moment) item = 0 ∧ 0 < tally (deals.take (moment + 1)) item

/-- The item has last come at this moment. -/
def LastArrives (deals : List Deal) (item : String) (moment : Nat) : Prop :=
  IsGreatest {moment | Arrives deals item moment} moment

/-- The first of two items has last come before the second. -/
def CameBefore (deals : List Deal) (earlier later : String) : Prop :=
  ∃ first second, LastArrives deals earlier first ∧ LastArrives deals later second ∧ first < second

section Counters

variable {deals : List Deal} {deal : Deal} {item : String} {moment : Nat}

theorem tally_concat (deals : List Deal) (deal : Deal) :
    tally (deals ++ [deal]) =
      Function.update (tally deals) deal.item (deal.count (tally deals deal.item)) := by
  funext item
  rw [tally, List.foldl_append, ← tally]
  by_cases h : deal.item = item
  · subst h
    simp
  · simp [h, Ne.symm h]

theorem Arrives.lt (h : Arrives deals item moment) : moment < deals.length := by
  by_contra hle
  obtain ⟨hnone, hsome⟩ := h
  rw [List.take_of_length_le (by omega)] at hnone hsome
  omega

theorem arrives_concat_of_lt (h : moment < deals.length) :
    Arrives (deals ++ [deal]) item moment ↔ Arrives deals item moment := by
  rw [Arrives, List.take_append_of_le_length (Nat.le_of_lt h), List.take_append_of_le_length h,
    Arrives]

theorem arrives_concat_length :
    Arrives (deals ++ [deal]) item deals.length ↔
      tally deals item = 0 ∧ 0 < tally (deals ++ [deal]) item := by
  rw [Arrives, List.take_left, List.take_of_length_le (by simp)]

/-- While some of an item is held, it does not come again. -/
theorem LastArrives.concat (h : LastArrives deals item moment) (hheld : 0 < tally deals item)
    (deal : Deal) : LastArrives (deals ++ [deal]) item moment := by
  refine ⟨(arrives_concat_of_lt h.1.lt).mpr h.1, fun other hother => ?_⟩
  have hlt : other < deals.length + 1 := by simpa using Arrives.lt hother
  rcases Nat.lt_succ_iff_lt_or_eq.mp hlt with hearlier | rfl
  · exact h.2 ((arrives_concat_of_lt hearlier).mp hother)
  · obtain ⟨hnone, -⟩ := arrives_concat_length.mp hother
    omega

theorem lastArrives_concat (hnone : tally deals item = 0)
    (hsome : 0 < tally (deals ++ [deal]) item) :
    LastArrives (deals ++ [deal]) item deals.length := by
  refine ⟨arrives_concat_length.mpr ⟨hnone, hsome⟩, fun other hother => ?_⟩
  have hlt : other < deals.length + 1 := by simpa using Arrives.lt hother
  omega

theorem exists_lastArrives (h : 0 < tally deals item) :
    ∃ moment, LastArrives deals item moment := by
  induction deals using List.reverseRecOn with
  | nil => cases h
  | append_singleton deals deal ih =>
    rcases Nat.eq_zero_or_pos (tally deals item) with hnone | hheld
    · exact ⟨deals.length, lastArrives_concat hnone h⟩
    · obtain ⟨moment, hmoment⟩ := ih hheld
      exact ⟨moment, hmoment.concat hheld deal⟩

theorem CameBefore.concat {earlier later : String} (h : CameBefore deals earlier later)
    (hearlier : 0 < tally deals earlier) (hlater : 0 < tally deals later) (deal : Deal) :
    CameBefore (deals ++ [deal]) earlier later := by
  obtain ⟨first, second, hfirst, hsecond, hlt⟩ := h
  exact ⟨first, second, hfirst.concat hearlier deal, hsecond.concat hlater deal, hlt⟩

theorem tallyFits_concat :
    TallyFits (deals ++ [deal]) item ↔
      TallyFits deals item ∧ tally (deals ++ [deal]) item ≤ 4294967295 := by
  simp [TallyFits, List.prefix_concat_iff, or_imp, forall_and, and_comm]

theorem tally_eq_zero (h : ∀ deal ∈ deals, deal.item ≠ item) : tally deals item = 0 := by
  induction deals using List.reverseRecOn with
  | nil => rfl
  | append_singleton deals deal ih =>
    obtain ⟨hearlier, hlast⟩ := List.forall_mem_append.mp h
    have hne : item ≠ deal.item := (List.forall_mem_singleton.mp hlast).symm
    rw [tally_concat, Function.update_of_ne hne, ih hearlier]

/-- It is enough to look at the items that are dealt with. -/
theorem forall_tallyFits_iff :
    (∀ item, TallyFits deals item) ↔ ∀ deal ∈ deals, TallyFits deals deal.item := by
  refine ⟨fun h deal _ => h deal.item, fun h item => ?_⟩
  by_cases hitem : ∃ deal ∈ deals, deal.item = item
  · obtain ⟨deal, hmem, rfl⟩ := hitem
    exact h deal hmem
  · intro dealt hdealt
    have hnone : tally dealt item = 0 :=
      tally_eq_zero fun deal hmem heq => hitem ⟨deal, hdealt.subset hmem, heq⟩
    omega

end Counters

namespace Inventory

def deal (inventory : Inventory) : Deal → Inventory
  | .add item quantity => inventory.add item quantity
  | .remove item quantity => (inventory.remove item quantity).2

def dealAll (inventory : Inventory) (deals : List Deal) : Inventory :=
  deals.foldl deal inventory

theorem dealAll_concat (inventory : Inventory) (deals : List Deal) (deal : Deal) :
    inventory.dealAll (deals ++ [deal]) = (inventory.dealAll deals).deal deal := by
  simp [dealAll]

/-- The items of the stacks, in their order. -/
def items (inventory : Inventory) : List String :=
  inventory.held.map (·.item)

theorem quantity_of_notMem {inventory : Inventory} {item : String} (h : item ∉ inventory.items) :
    inventory.quantity item = 0 := by
  obtain ⟨held⟩ := inventory
  induction held with
  | nil => rfl
  | cons stack rest ih =>
    obtain ⟨hne, hrest⟩ := List.ne_and_not_mem_of_not_mem_cons h
    rw [quantity_cons, if_neg hne.symm, ih hrest]

theorem quantity_of_mem {inventory : Inventory} (h : inventory.items.Nodup) {stack : Stack}
    (hstack : stack ∈ inventory.held) : inventory.quantity stack.item = stack.quantity := by
  obtain ⟨held⟩ := inventory
  induction held with
  | nil => cases hstack
  | cons first rest ih =>
    obtain ⟨hfirst, hrest⟩ := List.nodup_cons.mp h
    rw [quantity_cons]
    rcases List.mem_cons.mp hstack with rfl | hstack
    · exact if_pos rfl
    · have hmem : stack.item ∈ rest.map (·.item) := List.mem_map_of_mem hstack
      have hne : first.item ≠ stack.item := (ne_of_mem_of_not_mem hmem hfirst).symm
      rw [if_neg hne, ih hrest hstack]

section Adding

variable (inventory : Inventory) (item : String) (gain : UInt32)

theorem quantity_add (key : String) :
    (inventory.add item gain).quantity key =
      inventory.quantity key + if item = key then gain else 0 := by
  rw [add]
  by_cases hgain : gain = 0
  · simp [hgain]
  · rw [if_neg hgain]
    obtain ⟨held⟩ := inventory
    induction held with
    | nil => by_cases hkey : item = key <;> simp [raise, quantity, hkey]
    | cons stack rest ih =>
      rw [raise]
      by_cases hitem : stack.item = item
      · by_cases hkey : item = key <;> simp [quantity_cons, hitem, hkey]
      · rw [if_neg hitem, quantity_cons, quantity_cons, ih]
        by_cases hkey : stack.item = key
        · have hne : item ≠ key := fun heq => hitem (hkey.trans heq.symm)
          simp [hkey, hne]
        · simp [hkey]

theorem items_add :
    (inventory.add item gain).items =
      if gain = 0 ∨ item ∈ inventory.items then inventory.items
      else inventory.items ++ [item] := by
  rw [add]
  by_cases hgain : gain = 0
  · simp [hgain]
  · rw [if_neg hgain]
    obtain ⟨held⟩ := inventory
    induction held with
    | nil => simp [raise, items, hgain]
    | cons stack rest ih =>
      rw [raise]
      by_cases hitem : stack.item = item
      · simp [items, hitem]
      · rw [if_neg hitem]
        simp only [items, List.map_cons, hgain, false_or, List.mem_cons, Ne.symm hitem] at ih ⊢
        rw [ih]
        split <;> rfl

end Adding

section Removing

variable (inventory : Inventory) (item : String) (loss : UInt32)

theorem remove_cons (stack : Stack) (rest : List Stack) :
    remove ⟨stack :: rest⟩ item loss =
      if stack.item = item then
        if stack.quantity ≤ loss then (stack.quantity, ⟨rest⟩)
        else (loss, ⟨⟨item, stack.quantity - loss⟩ :: rest⟩)
      else
        ((remove ⟨rest⟩ item loss).1, ⟨stack :: (remove ⟨rest⟩ item loss).2.held⟩) := by
  by_cases hitem : stack.item = item
  · by_cases hall : stack.quantity ≤ loss <;> simp [remove, lower, hitem, hall]
  · simp [remove, lower, hitem]

theorem remove_fst :
    (inventory.remove item loss).1 =
      if inventory.quantity item ≤ loss then inventory.quantity item else loss := by
  obtain ⟨held⟩ := inventory
  induction held with
  | nil => simp [remove, lower, quantity]
  | cons stack rest ih =>
    rw [remove_cons, quantity_cons]
    by_cases hitem : stack.item = item
    · simp only [hitem, if_true]
      split <;> rfl
    · simp only [hitem, if_false, ih]

theorem items_remove :
    (inventory.remove item loss).2.items =
      if inventory.quantity item ≤ loss then inventory.items.erase item else inventory.items := by
  obtain ⟨held⟩ := inventory
  induction held with
  | nil => simp [remove, lower, items]
  | cons stack rest ih =>
    rw [remove_cons, quantity_cons]
    by_cases hitem : stack.item = item
    · simp only [hitem, if_true]
      split <;> simp [items, hitem]
    · simp only [hitem, if_false]
      simp only [items, List.map_cons] at ih ⊢
      rw [ih, List.erase_cons_tail (by simpa using hitem)]
      split <;> rfl

variable {inventory item loss}

theorem quantity_remove_of_ne {key : String} (h : key ≠ item) :
    (inventory.remove item loss).2.quantity key = inventory.quantity key := by
  obtain ⟨held⟩ := inventory
  induction held with
  | nil => rfl
  | cons stack rest ih =>
    rw [remove_cons, quantity_cons]
    by_cases hitem : stack.item = item
    · simp only [hitem, if_true, h.symm, if_false]
      split <;> simp [quantity_cons, h.symm]
    · simp only [hitem, if_false, quantity_cons, ih]

/-- Where no item has two stacks, a removal leaves of its item what it does not take. -/
theorem quantity_remove_self (h : inventory.items.Nodup) :
    (inventory.remove item loss).2.quantity item =
      if inventory.quantity item ≤ loss then 0 else inventory.quantity item - loss := by
  split
  · next hall =>
    have hitems : (inventory.remove item loss).2.items = inventory.items.erase item := by
      rw [items_remove, if_pos hall]
    apply quantity_of_notMem
    rw [hitems]
    exact h.not_mem_erase
  · next hsome =>
    obtain ⟨held⟩ := inventory
    induction held with
    | nil => simp [quantity] at hsome
    | cons stack rest ih =>
      rw [quantity_cons] at hsome ⊢
      rw [remove_cons]
      by_cases hitem : stack.item = item
      · simp only [hitem, if_true] at hsome ⊢
        simp [hsome, quantity_cons]
      · simp only [hitem, if_false] at hsome ⊢
        rw [quantity_cons, if_neg hitem, ih (List.nodup_cons.mp h).2 hsome]

end Removing

/-- The items that are held once the counter of one of them is set: it goes when it comes to zero,
and stands behind the others when it was not held. -/
def itemsAfter (items : List String) (item : String) (counter : Nat) : List String :=
  if counter = 0 then items.erase item else if item ∈ items then items else items ++ [item]

section Dealing

variable {inventory : Inventory} {deals : List Deal} {item : String}

theorem nodup_deal (h : inventory.items.Nodup) (deal : Deal) :
    (inventory.deal deal).items.Nodup := by
  cases deal with
  | add item gain =>
    rw [Inventory.deal, items_add]
    split
    · exact h
    · next hnew =>
      rw [← List.concat_eq_append]
      exact h.concat (not_or.mp hnew).2
  | remove item loss =>
    rw [Inventory.deal, items_remove]
    split
    · exact h.erase item
    · exact h

theorem nodup_dealAll (deals : List Deal) : (empty.dealAll deals).items.Nodup := by
  induction deals using List.reverseRecOn with
  | nil => exact List.nodup_nil
  | append_singleton deals deal ih => exact dealAll_concat empty deals deal ▸ nodup_deal ih deal

/-- The quantity of the item that is dealt with follows the counter, unless this is too great. -/
theorem quantity_deal_self (h : inventory.items.Nodup) {deal : Deal}
    (hfits : deal.count (inventory.quantity deal.item).toNat ≤ 4294967295) :
    ((inventory.deal deal).quantity deal.item).toNat =
      deal.count (inventory.quantity deal.item).toNat := by
  cases deal with
  | add item gain =>
    rw [Deal.count, Deal.item] at hfits
    rw [Inventory.deal, Deal.item, Deal.count, quantity_add, if_pos rfl, UInt32.toNat_add]
    -- The sum fits, so it is not taken modulo anything.
    omega
  | remove item loss =>
    rw [Inventory.deal, Deal.item, Deal.count, quantity_remove_self h]
    split
    · next hall =>
      rw [UInt32.le_iff_toNat_le] at hall
      rw [Nat.min_eq_left hall, Nat.sub_self, UInt32.toNat_zero]
    · next hsome =>
      have hle : loss ≤ inventory.quantity item := UInt32.le_of_lt (UInt32.not_le.mp hsome)
      rw [UInt32.toNat_sub_of_le _ _ hle, Nat.min_eq_right (UInt32.le_iff_toNat_le.mp hle)]

theorem quantity_deal_of_ne {deal : Deal} (h : item ≠ deal.item) :
    (inventory.deal deal).quantity item = inventory.quantity item := by
  cases deal with
  | add other gain =>
    have hne : other ≠ item := h.symm
    rw [Inventory.deal, quantity_add, if_neg hne, UInt32.add_zero]
  | remove => exact quantity_remove_of_ne h

/-- An inventory that began empty holds of an item what its counter says, as long as the counter of
this item is never too great. -/
theorem quantity_dealAll (h : TallyFits deals item) :
    ((empty.dealAll deals).quantity item).toNat = tally deals item := by
  induction deals using List.reverseRecOn with
  | nil => rfl
  | append_singleton deals deal ih =>
    obtain ⟨hearlier, hfits⟩ := tallyFits_concat.mp h
    have hquantity := ih hearlier
    rw [tally_concat] at hfits ⊢
    rw [dealAll_concat]
    by_cases hitem : item = deal.item
    · subst hitem
      rw [Function.update_self, ← hquantity] at hfits ⊢
      exact quantity_deal_self (nodup_dealAll deals) hfits
    · rw [Function.update_of_ne hitem, quantity_deal_of_ne hitem, hquantity]

theorem contains_dealAll_iff (h : TallyFits deals item) :
    (empty.dealAll deals).contains item = true ↔ 0 < tally deals item := by
  rw [contains, decide_eq_true_iff, UInt32.lt_iff_toNat_lt, quantity_dealAll h,
    UInt32.toNat_zero]

/-- What is held follows the counters, and the items stand in the order in which they came. -/
structure Keeps (inventory : Inventory) (deals : List Deal) : Prop where
  mem_iff : ∀ item, item ∈ inventory.items ↔ 0 < tally deals item
  ordered : inventory.items.Pairwise (CameBefore deals)

theorem mem_itemsAfter {items : List String} {counter : String → Nat} (h : items.Nodup)
    (hmem : ∀ item, item ∈ items ↔ 0 < counter item) (item : String) (quantity : Nat)
    (other : String) :
    other ∈ itemsAfter items item quantity ↔ 0 < Function.update counter item quantity other := by
  rw [itemsAfter, Function.update_apply]
  by_cases hsame : other = item
  · subst hsame
    rw [if_pos rfl, Nat.pos_iff_ne_zero]
    split
    · next hnone => simp [hnone, h.not_mem_erase]
    · next hsome =>
      split
      · next hheld => simp only [hheld, hsome, ne_eq, not_false_eq_true]
      · simp [hsome]
  · rw [if_neg hsame, ← hmem]
    split
    · exact List.mem_erase_of_ne hsame
    · split <;> simp [hsame]

/-- The items stay in the order in which they came: one that goes leaves the others where they are,
and one that comes stands behind them. -/
theorem pairwise_itemsAfter {items : List String}
    (hmem : ∀ item, item ∈ items ↔ 0 < tally deals item)
    (h : items.Pairwise (CameBefore deals)) (deal : Deal) :
    (itemsAfter items deal.item (tally (deals ++ [deal]) deal.item)).Pairwise
      (CameBefore (deals ++ [deal])) := by
  have hkept : items.Pairwise (CameBefore (deals ++ [deal])) :=
    h.imp_of_mem fun hearlier hlater hbefore =>
      hbefore.concat ((hmem _).mp hearlier) ((hmem _).mp hlater) deal
  rw [itemsAfter]
  split
  · exact hkept.sublist List.erase_sublist
  · next hsome =>
    split
    · exact hkept
    · next habsent =>
      -- The item comes at this very moment, and those that are held came before it.
      have hnone : tally deals deal.item = 0 := by
        rw [hmem] at habsent
        omega
      refine List.pairwise_append.mpr ⟨hkept, List.pairwise_singleton .., ?_⟩
      intro earlier hearlier later hlater
      obtain rfl := List.mem_singleton.mp hlater
      obtain ⟨first, hfirst⟩ := exists_lastArrives ((hmem earlier).mp hearlier)
      exact ⟨first, deals.length, hfirst.concat ((hmem earlier).mp hearlier) deal,
        lastArrives_concat hnone (Nat.pos_of_ne_zero hsome), hfirst.1.lt⟩

theorem items_deal {deal : Deal}
    (h : deal.item ∈ inventory.items ↔ 0 < (inventory.quantity deal.item).toNat) :
    (inventory.deal deal).items =
      itemsAfter inventory.items deal.item
        (deal.count (inventory.quantity deal.item).toNat) := by
  cases deal with
  | add item gain =>
    rw [Deal.item] at h ⊢
    rw [Inventory.deal, Deal.count, items_add, itemsAfter]
    by_cases hgain : gain = 0
    · rw [if_pos (.inl hgain), hgain, UInt32.toNat_zero, Nat.add_zero]
      split
      · next hnone =>
        have habsent : item ∉ inventory.items := fun hmem => Nat.ne_of_gt (h.mp hmem) hnone
        exact (List.erase_of_not_mem habsent).symm
      · next hsome => exact (if_pos (h.mpr (Nat.pos_of_ne_zero hsome))).symm
    · have hpos : gain.toNat ≠ 0 := fun hzero => hgain (UInt32.toNat_inj.mp hzero)
      rw [if_neg (by omega : ¬(inventory.quantity item).toNat + gain.toNat = 0)]
      simp only [hgain, false_or]
  | remove item loss =>
    rw [Deal.item] at h ⊢
    rw [Inventory.deal, Deal.count, items_remove, itemsAfter]
    split
    · next hall =>
      rw [UInt32.le_iff_toNat_le] at hall
      exact (if_pos (by omega)).symm
    · next hsome =>
      rw [UInt32.le_iff_toNat_le] at hsome
      rw [if_neg (by omega), if_pos (h.mpr (by omega))]

/-- What is kept is kept through a deal with an item of which the counter has not been too great. -/
theorem Keeps.deal (h : (empty.dealAll deals).Keeps deals) {deal : Deal}
    (hfits : TallyFits deals deal.item) :
    (empty.dealAll (deals ++ [deal])).Keeps (deals ++ [deal]) := by
  have hquantity := quantity_dealAll hfits
  have hcounter : tally (deals ++ [deal]) deal.item = deal.count (tally deals deal.item) := by
    rw [tally_concat, Function.update_self]
  have hitems : (empty.dealAll (deals ++ [deal])).items =
      itemsAfter (empty.dealAll deals).items deal.item (tally (deals ++ [deal]) deal.item) := by
    rw [dealAll_concat, items_deal (hquantity ▸ h.mem_iff deal.item), hquantity, hcounter]
  constructor
  · intro item
    rw [hitems, hcounter, tally_concat]
    exact mem_itemsAfter (nodup_dealAll deals) h.mem_iff ..
  · rw [hitems]
    exact pairwise_itemsAfter h.mem_iff h.ordered deal

theorem keeps_dealAll (h : ∀ item, TallyFits deals item) : (empty.dealAll deals).Keeps deals := by
  -- By the last deal. The order is carried along with the items, since it is only while both of two
  -- items are held that `CameBefore` goes on from one moment to the next.
  induction deals using List.reverseRecOn with
  | nil => exact ⟨by simp [dealAll, empty, items, tally], .nil⟩
  | append_singleton deals deal ih =>
    have hearlier := fun item => (tallyFits_concat.mp (h item)).1
    exact (ih hearlier).deal (hearlier deal.item)

/-- After deals in which no counter is too great for 32 bits, an inventory that began empty has no
two stacks of one item and no empty stack. It holds of every item what the counter of the item says,
and a removal returns what the counter falls by. The stacks stand in the order in which their items
last came. -/
theorem inventory_tells_counters (deals : List Deal) (h : ∀ item, TallyFits deals item) :
    let inventory := empty.dealAll deals
    (inventory.held.map (·.item)).Nodup ∧
      (∀ stack ∈ inventory.held, 0 < stack.quantity) ∧
      (∀ item, (inventory.quantity item).toNat = tally deals item) ∧
      (∀ item loss, tally (deals ++ [.remove item loss]) item +
        (inventory.remove item loss).1.toNat = tally deals item) ∧
      (∀ item, inventory.contains item = true ↔ 0 < tally deals item) ∧
      inventory.held.Pairwise fun earlier later => CameBefore deals earlier.item later.item := by
  intro inventory
  have hkeeps := keeps_dealAll h
  have hquantity : ∀ item, (inventory.quantity item).toNat = tally deals item :=
    fun item => quantity_dealAll (h item)
  refine ⟨nodup_dealAll deals, ?_, hquantity, ?_, fun item => contains_dealAll_iff (h item), ?_⟩
  · intro stack hstack
    rw [← quantity_of_mem (nodup_dealAll deals) hstack, UInt32.lt_iff_toNat_lt, hquantity]
    exact (hkeeps.mem_iff stack.item).mp (List.mem_map_of_mem hstack)
  · intro item loss
    have hcounter : tally (deals ++ [.remove item loss]) item =
        tally deals item - min (tally deals item) loss.toNat := by
      rw [tally_concat]
      exact Function.update_self ..
    rw [hcounter, ← hquantity, remove_fst]
    split
    · next hall =>
      rw [UInt32.le_iff_toNat_le] at hall
      omega
    · next hsome =>
      rw [UInt32.le_iff_toNat_le] at hsome
      omega
  · exact List.pairwise_map.mp hkeeps.ordered

/-- Two kinds of items, of which the first goes and comes back behind the second. -/
def swaps : List Deal :=
  [.add "lamp" 1, .add "coin" 4294967295, .remove "lamp" 3, .add "lamp" 2, .remove "coin" 4294967291]

theorem swaps_tell_counters :
    (∀ item, TallyFits swaps item) ∧
      empty.dealAll swaps = ⟨[⟨"coin", 4⟩, ⟨"lamp", 2⟩]⟩ ∧
      CameBefore swaps "coin" "lamp" := by
  have hfits : ∀ item, TallyFits swaps item := forall_tallyFits_iff.mpr (by decide)
  obtain ⟨-, -, -, -, -, hordered⟩ := inventory_tells_counters swaps hfits
  have hheld : empty.dealAll swaps = ⟨[⟨"coin", 4⟩, ⟨"lamp", 2⟩]⟩ := by decide
  refine ⟨hfits, hheld, ?_⟩
  rw [hheld] at hordered
  simpa using hordered

end Dealing

end Inventory

end Parley
