/-!
# Inventories

What a character carries: stacks of items, each with a quantity of 32 bits, in the order in which
they came. All operations on an item concern the first stack that holds it. A sum that is too great
for 32 bits starts again from zero, and the stack stays even if it comes to zero by this.
-/

namespace Parley

structure Stack where
  item : String
  quantity : UInt32
deriving DecidableEq

structure Inventory where
  held : List Stack
deriving DecidableEq

namespace Inventory

def empty : Inventory :=
  ⟨[]⟩

/-- Raise the first stack of the item, or start one behind the others. -/
def raise (item : String) (quantity : UInt32) : List Stack → List Stack
  | [] => [⟨item, quantity⟩]
  | stack :: rest =>
    if stack.item = item then ⟨item, stack.quantity + quantity⟩ :: rest
    else stack :: raise item quantity rest

/-- Lower the first stack of the item, and take it away once nothing is left of it. The number says
by how much it was lowered. -/
def lower (item : String) (quantity : UInt32) : List Stack → UInt32 × List Stack
  | [] => (0, [])
  | stack :: rest =>
    if stack.item = item then
      if stack.quantity ≤ quantity then (stack.quantity, rest)
      else (quantity, ⟨item, stack.quantity - quantity⟩ :: rest)
    else
      let (removed, rest) := lower item quantity rest
      (removed, stack :: rest)

def add (inventory : Inventory) (item : String) (quantity : UInt32) : Inventory :=
  if quantity = 0 then inventory else ⟨raise item quantity inventory.held⟩

def remove (inventory : Inventory) (item : String) (quantity : UInt32) : UInt32 × Inventory :=
  let (removed, held) := lower item quantity inventory.held
  (removed, ⟨held⟩)

def quantity (inventory : Inventory) (item : String) : UInt32 :=
  ((inventory.held.find? (·.item = item)).map (·.quantity)).getD 0

theorem quantity_cons (stack : Stack) (rest : List Stack) (item : String) :
    quantity ⟨stack :: rest⟩ item =
      if stack.item = item then stack.quantity else quantity ⟨rest⟩ item := by
  by_cases h : stack.item = item <;> simp [quantity, h]

def contains (inventory : Inventory) (item : String) : Bool :=
  0 < inventory.quantity item

def addAll (inventory : Inventory) (gains : List (String × UInt32)) : Inventory :=
  gains.foldl (fun inventory (item, quantity) => inventory.add item quantity) inventory

def removeAll (inventory : Inventory) (losses : List (String × UInt32)) : Inventory :=
  losses.foldl (fun inventory (item, quantity) => (inventory.remove item quantity).2) inventory

end Inventory

end Parley
