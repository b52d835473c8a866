import Parley.Item
import Parley.Json.Fields

/-!
# Items in documents

Items and catalogs as documents write them. A catalog is written as the list of its items, or with
each item under its key.
-/

namespace Parley

namespace Item

def fieldNames : List String :=
  ["id", "name", "description"]

def ofJson? (json : Json) : Option Item :=
  match json.fields? fieldNames with
  | some [some id, some name, description] => do
    let id ← id.text?
    let name ← name.text?
    let description ← Json.orElse "" Json.text? description
    some { id, name, description }
  | _ => none

def toJson (item : Item) : Json :=
  .object
    [Json.member "id" (.text item.id), Json.member "name" (.text item.name),
     Json.member "description" (.text item.description)]

end Item

namespace Catalog

def entry? : Json.Member → Option (String × Item)
  | (some key, value) => (Item.ofJson? value).map (key, ·)
  | (none, _) => none

def entries? : Json → Option (List (String × Item))
  | .object members => members.mapM entry?
  | _ => none

def ofListing? (json : Json) : Option Catalog :=
  match json.fields? ["items"] with
  | some [some items] => (Json.list? Item.ofJson? items).map ofList
  | _ => none

/-- A catalog from its items under their keys, of which the last one of each key stays. -/
def ofJson? (json : Json) : Option Catalog :=
  match json.fields? ["items"] with
  | some [some items] =>
    (entries? items).map fun entries =>
      ⟨entries.foldl (fun items (key, item) => items.insert key item) ∅⟩
  | _ => none

def toJson (catalog : Catalog) : Json :=
  .object
    [Json.member "items"
      (.object (catalog.toList.map fun (key, item) => Json.member key item.toJson))]

end Catalog

end Parley
