import Std.Data.TreeMap

/-!
# Items and catalogs

Items and the catalog that looks them up. The catalog keeps one item under each key; an item added
to it goes under its own identifier and replaces what was there.
-/

namespace Parley

structure Item where
  id : String
  name : String
  description : String
deriving DecidableEq

abbrev ItemLookup :=
  String → Option Item

structure Catalog where
  items : Std.TreeMap String Item

namespace Catalog

def empty : Catalog :=
  ⟨∅⟩

def add (catalog : Catalog) (item : Item) : Catalog :=
  ⟨catalog.items.insert item.id item⟩

def ofList (items : List Item) : Catalog :=
  items.foldl add empty

def item? (catalog : Catalog) : ItemLookup := fun key =>
  catalog.items[key]?

def size (catalog : Catalog) : Nat :=
  catalog.items.size

def isEmpty (catalog : Catalog) : Bool :=
  catalog.items.isEmpty

def toList (catalog : Catalog) : List (String × Item) :=
  catalog.items.toList

end Catalog

end Parley
