import Parley.Character
import Parley.Json.Fields

/-!
# Characters in documents

Characters as documents write them. An NPC without allies or enemies may leave them out.
-/

namespace Parley

namespace EntityId

def ofJson? (json : Json) : Option EntityId :=
  json.text?.bind fun text => ofText? text.toList

def toJson (id : EntityId) : Json :=
  .text (String.ofList id.toText)

end EntityId

namespace Npc

def fieldNames : List String :=
  ["id", "name", "allies", "enemies"]

def types? (json : Json) : Option (Std.TreeSet String) :=
  (Json.list? Json.text? json).map fun types => Std.TreeSet.ofList types

def ofJson? (json : Json) : Option Npc :=
  match json.fields? fieldNames with
  | some [some id, some name, allies, enemies] => do
    let id ← EntityId.ofJson? id
    let name ← name.text?
    let allies ← Json.orElse ∅ types? allies
    let enemies ← Json.orElse ∅ types? enemies
    some { id, name, allies, enemies }
  | _ => none

end Npc

namespace Health

def ofJson? (json : Json) : Option Health :=
  match json.fields? ["current_hp", "max_hp"] with
  | some [some current, some maximum] => do
    let current ← current.int32?
    let maximum ← maximum.int32?
    some { current, maximum }
  | _ => none

def toJson (health : Health) : Json :=
  .object
    [Json.member "current_hp" (.integer health.current),
     Json.member "max_hp" (.integer health.maximum)]

end Health

namespace Stack

def ofJson? (json : Json) : Option Stack :=
  match json.fields? ["item_id", "quantity"] with
  | some [some item, some quantity] => do
    let item ← item.text?
    let quantity ← quantity.word32?
    some { item, quantity }
  | _ => none

def toJson (stack : Stack) : Json :=
  .object
    [Json.member "item_id" (.text stack.item),
     Json.member "quantity" (.natural stack.quantity.toNat)]

end Stack

namespace Inventory

def ofJson? (json : Json) : Option Inventory :=
  match json.fields? ["items"] with
  | some [some items] => (Json.list? Stack.ofJson? items).map Inventory.mk
  | _ => none

def toJson (inventory : Inventory) : Json :=
  .object [Json.member "items" (.array (inventory.held.map Stack.toJson))]

end Inventory

namespace Player

def fieldNames : List String :=
  ["id", "name", "level", "current_character_type", "health", "inventory"]

def ofJson? (json : Json) : Option Player :=
  match json.fields? fieldNames with
  | some [some id, some name, some level, some type, some health, some inventory] => do
    let id ← EntityId.ofJson? id
    let name ← name.text?
    let level ← level.int32?
    let type ← type.text?
    let health ← Health.ofJson? health
    let inventory ← Inventory.ofJson? inventory
    some { id, name, level, type, health, inventory }
  | _ => none

def toJson (player : Player) : Json :=
  .object
    [Json.member "id" player.id.toJson, Json.member "name" (.text player.name),
     Json.member "level" (.integer player.level),
     Json.member "current_character_type" (.text player.type),
     Json.member "health" player.health.toJson, Json.member "inventory" player.inventory.toJson]

end Player

end Parley
