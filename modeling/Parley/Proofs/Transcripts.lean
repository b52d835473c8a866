import Parley.Document.Characters
import Parley.Document.Lines
import Parley.Proofs.Structures

/-!
# Records and players as texts

A record and a player are the same after they have been written as a document and read back, as long
as their numbers have the sizes that documents keep. A record without responses is written without
them, and comes back without them.
-/

namespace Parley

namespace Record

/-- The values of the fields that are written, in the order of the fields. -/
def fieldValues (record : Record) : List Json :=
  [.text record.player, .text record.text, .text record.condition, .text record.action] ++
    if record.response = [] then [] else [.array (record.response.map .natural)]

/-- The responses are numbers of 64 bits. -/
def Fits (record : Record) : Prop :=
  ∀ index ∈ record.response, index < 18446744073709551616

instance (record : Record) : Decidable record.Fits :=
  inferInstanceAs (Decidable (∀ index ∈ record.response, index < 18446744073709551616))

theorem toJson_eq (record : Record) :
    record.toJson = .object (Json.fieldMembers fieldNames record.fieldValues) := by
  by_cases h : record.response = []
  · simp [toJson, fieldValues, h, Json.fieldMembers, fieldNames]
  · simp [toJson, fieldValues, h, Json.fieldMembers, fieldNames]

theorem length_fieldValues (record : Record) :
    record.fieldValues.length ≤ fieldNames.length := by
  by_cases h : record.response = [] <;> simp [fieldValues, h, fieldNames]

theorem ofJson?_toJson {record : Record} (h : record.Fits) :
    ofJson? record.toJson = some record := by
  rw [toJson_eq, ofJson?, Json.fields?_object _ _ (by decide) record.length_fieldValues]
  obtain ⟨player, text, condition, action, response⟩ := record
  have hlist : Json.list? Json.word64? (.array (response.map .natural)) = some response :=
    Json.list?_map fun index hindex => Json.natural?_natural (h index hindex) (Nat.le_refl _)
  cases response with
  | nil => rfl
  | cons index rest =>
    rw [List.map_cons] at hlist
    simp [fieldValues, fieldNames, Json.orElse, hlist]

theorem forall_mem_fieldValues {record : Record} {P : Json → Prop} (htext : ∀ text, P (.text text))
    (hresponse : P (.array (record.response.map .natural))) :
    ∀ value ∈ record.fieldValues, P value := by
  intro value hvalue
  rcases List.mem_append.mp hvalue with hvalue | hvalue
  · simp only [List.mem_cons, List.not_mem_nil, or_false] at hvalue
    rcases hvalue with rfl | rfl | rfl | rfl <;> exact htext _
  · split at hvalue
    · cases hvalue
    · rwa [List.mem_singleton.mp hvalue]

theorem proper_toJson (record : Record) : record.toJson.Proper := by
  rw [toJson_eq]
  refine Json.proper_object _ (forall_mem_fieldValues .text (.array fun item hitem => ?_))
  obtain ⟨index, -, rfl⟩ := List.mem_map.mp hitem
  exact Json.proper_natural index

/-- A record that fits settles to itself. -/
theorem value?_write {record : Record} (h : record.Fits) :
    Json.value? record.toJson.write = some record.toJson := by
  rw [Json.value?, Json.read?_write record.proper_toJson, toJson_eq]
  refine Json.settle?_object (by decide) (forall_mem_fieldValues (fun _ => rfl) ?_)
  refine Json.settle?_array fun item hitem => ?_
  obtain ⟨index, hindex, rfl⟩ := List.mem_map.mp hitem
  exact Json.settle?_natural (h index hindex)

theorem get?_response_toJson (record : Record) :
    record.toJson.get? "response" =
      if record.response = [] then none else some (.array (record.response.map .natural)) := by
  rw [toJson_eq]
  by_cases h : record.response = [] <;>
    simp [Json.get?, Json.fieldMembers, fieldNames, fieldValues, Json.member, h]

/-- A record comes back as it was written, both straight from its text and from the document that
its text is. Its responses are left out of the text if there are none. -/
theorem written_record_comes_back (record : Record) (h : record.Fits) :
    let text := record.toJson.write
    (Json.read? text).bind ofJson? = some record ∧
      (Json.value? text).bind ofJson? = some record ∧
      record.toJson.get? "response" =
        if record.response = [] then none else some (.array (record.response.map .natural)) := by
  refine ⟨?_, ?_, record.get?_response_toJson⟩
  · rw [Json.read?_write record.proper_toJson, Option.bind_some, ofJson?_toJson h]
  · rw [value?_write h, Option.bind_some, ofJson?_toJson h]

/-- Every kind of character that is written in its own way, and the greatest of the numbers. -/
def riddle : Record :=
  { player := "\"\\/\n\r\t\x00\x1f\x7f"
    text := "\u2028𝄞"
    condition := "item=a=b"
    action := ""
    response := [18446744073709551615, 0, 0] }

theorem riddle_comes_back :
    riddle.Fits ∧ (Json.read? riddle.toJson.write).bind ofJson? = some riddle ∧
      (Json.value? riddle.toJson.write).bind ofJson? = some riddle := by
  have hfits : riddle.Fits := by decide
  obtain ⟨hdirect, hvalue, -⟩ := written_record_comes_back riddle hfits
  exact ⟨hfits, hdirect, hvalue⟩

end Record

namespace EntityId

theorem ofJson?_toJson (id : EntityId) : ofJson? id.toJson = some id := by
  simp [ofJson?, toJson]

end EntityId

/-- The number is a signed one of 32 bits. -/
def FitsInt32 (n : Int) : Prop :=
  -2147483648 ≤ n ∧ n ≤ 2147483647

instance (n : Int) : Decidable (FitsInt32 n) :=
  inferInstanceAs (Decidable (-2147483648 ≤ n ∧ n ≤ 2147483647))

namespace Health

structure Fits (health : Health) : Prop where
  current : FitsInt32 health.current
  maximum : FitsInt32 health.maximum

theorem toJson_eq (health : Health) :
    health.toJson = .object (Json.fieldMembers ["current_hp", "max_hp"]
      [.integer health.current, .integer health.maximum]) := rfl

theorem ofJson?_toJson {health : Health} (h : health.Fits) :
    ofJson? health.toJson = some health := by
  rw [ofJson?, toJson_eq, Json.fields?_object]
  · simp [Json.int32?_integer h.current, Json.int32?_integer h.maximum]
  · decide
  · exact Nat.le_refl 2

theorem proper_toJson (health : Health) : health.toJson.Proper := by
  rw [toJson_eq]
  exact Json.proper_object _ (by simp [Json.proper_integer])

end Health

namespace Stack

theorem toJson_eq (stack : Stack) :
    stack.toJson = .object (Json.fieldMembers ["item_id", "quantity"]
      [.text stack.item, .natural stack.quantity.toNat]) := rfl

theorem ofJson?_toJson (stack : Stack) : ofJson? stack.toJson = some stack := by
  have hquantity : (Json.natural stack.quantity.toNat).word32? = some stack.quantity := by
    rw [Json.word32?, Json.natural?_natural stack.quantity.toNat_lt (by decide), Option.map_some,
      UInt32.ofNat_toNat]
  rw [ofJson?, toJson_eq, Json.fields?_object]
  · simp [hquantity]
  · decide
  · exact Nat.le_refl 2

theorem proper_toJson (stack : Stack) : stack.toJson.Proper := by
  rw [toJson_eq]
  exact Json.proper_object _ (by simp [Json.Proper.text, Json.proper_natural])

end Stack

namespace Inventory

theorem toJson_eq (inventory : Inventory) :
    inventory.toJson = .object (Json.fieldMembers ["items"]
      [.array (inventory.held.map Stack.toJson)]) := rfl

theorem ofJson?_toJson (inventory : Inventory) : ofJson? inventory.toJson = some inventory := by
  have hlist : Json.list? Stack.ofJson? (.array (inventory.held.map Stack.toJson)) =
      some inventory.held :=
    Json.list?_map fun stack _ => stack.ofJson?_toJson
  rw [ofJson?, toJson_eq, Json.fields?_object]
  · simp [hlist]
  · decide
  · exact Nat.le_refl 1

theorem proper_toJson (inventory : Inventory) : inventory.toJson.Proper := by
  rw [toJson_eq]
  refine Json.proper_object _ (List.forall_mem_singleton.mpr (.array fun item hitem => ?_))
  obtain ⟨stack, -, rfl⟩ := List.mem_map.mp hitem
  exact stack.proper_toJson

end Inventory

namespace Player

/-- The numbers of the player have the sizes that documents keep. -/
structure Fits (player : Player) : Prop where
  level : FitsInt32 player.level
  health : player.health.Fits

theorem toJson_eq (player : Player) :
    player.toJson = .object (Json.fieldMembers fieldNames
      [player.id.toJson, .text player.name, .integer player.level, .text player.type,
        player.health.toJson, player.inventory.toJson]) := rfl

theorem ofJson?_toJson {player : Player} (h : player.Fits) :
    ofJson? player.toJson = some player := by
  rw [ofJson?, toJson_eq, Json.fields?_object]
  · simp [fieldNames, EntityId.ofJson?_toJson, Json.int32?_integer h.level,
      Health.ofJson?_toJson h.health, Inventory.ofJson?_toJson]
  · decide
  · exact Nat.le_refl 6

theorem proper_toJson (player : Player) : player.toJson.Proper := by
  rw [toJson_eq]
  refine Json.proper_object _ ?_
  simp [EntityId.toJson, Json.Proper.text, Json.proper_integer, Health.proper_toJson,
    Inventory.proper_toJson]

/-- A player comes back from its text as it was written: with the same stacks in the same order,
empty ones and several of one item included, so that it has as much of every item as before. -/
theorem written_player_comes_back (player : Player) (h : player.Fits) :
    (Json.read? player.toJson.write).bind ofJson? = some player := by
  rw [Json.read?_write player.proper_toJson, Option.bind_some, ofJson?_toJson h]

/-- A player whose numbers are the least and the greatest ones, with stacks that an inventory does
not come to by adding items. -/
def castaway : Player :=
  { id := ⟨Vector.ofFn fun i => ⟨i.val % 16, Nat.mod_lt i.val (by decide)⟩⟩
    name := "\"Ann\"\n\x00"
    level := -2147483648
    type := "𝄞"
    health := ⟨2147483647, -1⟩
    inventory := ⟨[⟨"rope", 0⟩, ⟨"", 4294967295⟩, ⟨"rope", 2⟩]⟩ }

theorem castaway_comes_back :
    castaway.Fits ∧ (Json.read? castaway.toJson.write).bind ofJson? = some castaway := by
  have hfits : castaway.Fits := ⟨by decide, ⟨by decide, by decide⟩⟩
  exact ⟨hfits, written_player_comes_back castaway hfits⟩

end Player

end Parley
