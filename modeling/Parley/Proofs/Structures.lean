import Parley.Proofs.Loading
import Parley.Proofs.Rereading

/-!
# Structures as documents

A structure is written as an object with its fields in their order, of which the last ones may be
left out. Such an object gives every field the value that was written, as it stands and also once it
is taken as a whole, since no key comes twice.
-/

namespace Parley.Json

/-- The members that give these values to the first of the named fields. -/
def fieldMembers (names : List String) (values : List Json) : List Member :=
  List.zipWith member names values

theorem mem_fieldMembers {names : List String} {values : List Json} {found : Member}
    (h : found ∈ fieldMembers names values) :
    (∃ name ∈ names, found.1 = some name) ∧ found.2 ∈ values := by
  rw [fieldMembers, ← List.map_uncurry_zip_eq_zipWith] at h
  obtain ⟨⟨name, value⟩, hmem, rfl⟩ := List.mem_map.mp h
  obtain ⟨hname, hvalue⟩ := List.of_mem_zip hmem
  exact ⟨⟨name, hname, rfl⟩, hvalue⟩

theorem isSome_key {names : List String} {values : List Json} :
    ∀ found ∈ fieldMembers names values, found.1.isSome := by
  intro found hmem
  obtain ⟨⟨name, -, hkey⟩, -⟩ := mem_fieldMembers hmem
  rw [hkey]
  rfl

theorem nodup_keys {names : List String} (h : names.Nodup) (values : List Json) :
    ((fieldMembers names values).map Prod.fst).Nodup := by
  induction names generalizing values with
  | nil => exact List.nodup_nil
  | cons name names ih =>
    obtain ⟨hname, hnames⟩ := List.nodup_cons.mp h
    cases values with
    | nil => exact List.nodup_nil
    | cons value values =>
      refine List.nodup_cons.mpr ⟨fun hmem => hname ?_, ih hnames values⟩
      obtain ⟨found, hfound, hkey⟩ := List.mem_map.mp hmem
      obtain ⟨⟨other, hother, hother'⟩, -⟩ := mem_fieldMembers hfound
      exact Option.some.inj (hother'.symm.trans hkey) ▸ hother

theorem find?_fieldMembers {names : List String} (h : names.Nodup) {values : List Json}
    (hlength : values.length ≤ names.length) :
    names.map (fun name => ((fieldMembers names values).find? (·.1 = some name)).map (·.2)) =
      values.map some ++ List.replicate (names.length - values.length) none := by
  induction names generalizing values with
  | nil =>
    obtain rfl := List.length_eq_zero_iff.mp (Nat.le_zero.mp hlength)
    rfl
  | cons name names ih =>
    obtain ⟨hname, hnames⟩ := List.nodup_cons.mp h
    cases values with
    | nil => simp [fieldMembers, List.replicate_succ]
    | cons value values =>
      have hlater : ∀ other ∈ names, (fieldMembers (name :: names) (value :: values)).find?
          (·.1 = some other) = (fieldMembers names values).find? (·.1 = some other) := by
        intro other hother
        have hne : name ≠ other := fun heq => hname (heq ▸ hother)
        simp [fieldMembers, member, hne]
      rw [List.map_cons, List.map_congr_left fun other hother => by rw [hlater other hother],
        ih hnames (Nat.le_of_succ_le_succ hlength)]
      simp [fieldMembers, member]

/-- An object with the first fields in their order reads as the list of their values. -/
theorem fields?_object (names : List String) (values : List Json) (h : names.Nodup)
    (hlength : values.length ≤ names.length) :
    fields? names (.object (fieldMembers names values)) =
      some (values.map some ++ List.replicate (names.length - values.length) none) := by
  rw [fields?, if_pos, find?_fieldMembers h hlength]
  refine ⟨List.all_eq_true.mpr isSome_key, fun name _ => ?_⟩
  have hcount : (fieldMembers names values).countP (·.1 = some name) =
      ((fieldMembers names values).map Prod.fst).count (some name) := by
    rw [List.count_eq_countP, List.countP_map]
    exact List.countP_congr fun found _ => by simp
  rw [hcount]
  exact List.nodup_iff_count_le_one.mp (nodup_keys h values) (some name)

theorem proper_object (names : List String) {values : List Json}
    (h : ∀ value ∈ values, value.Proper) : (Json.object (fieldMembers names values)).Proper :=
  .object isSome_key fun _ hmem => h _ (mem_fieldMembers hmem).2

theorem proper_natural (n : Nat) : (natural n).Proper :=
  .number (Numeral.proper_toDigits false n)

theorem proper_integer (n : Int) : (integer n).Proper :=
  .number (Numeral.proper_toDigits (n < 0) n.natAbs)

@[simp]
theorem text?_text (value : String) : (text value).text? = some value := rfl

theorem list?_map {α : Type} {item? : Json → Option α} {toJson : α → Json} {values : List α}
    (h : ∀ value ∈ values, item? (toJson value) = some value) :
    list? item? (.array (values.map toJson)) = some values := by
  induction values with
  | nil => rfl
  | cons value values ih =>
    obtain ⟨hvalue, hvalues⟩ := List.forall_mem_cons.mp h
    have hrest := ih hvalues
    simp only [list?] at hrest
    simp [list?, hvalue, hrest]

theorem lastMembers_eq_self {members : List Member} (h : (members.map Prod.fst).Nodup) :
    lastMembers members = members := by
  induction members with
  | nil => rfl
  | cons member rest ih =>
    obtain ⟨hkey, hrest⟩ := List.nodup_cons.mp h
    have hlast : rest.any (·.1 = member.1) = false := by
      refine List.any_eq_false.mpr fun later hlater heq => hkey ?_
      exact of_decide_eq_true heq ▸ List.mem_map_of_mem hlater
    rw [lastMembers, hlast, ih hrest]
    rfl

theorem settleItems?_eq_self {depth : Nat} {items : List Json}
    (h : ∀ item ∈ items, settle? depth item = some item) :
    settleItems? depth items = some items := by
  induction items with
  | nil => rfl
  | cons item items ih =>
    obtain ⟨hitem, hitems⟩ := List.forall_mem_cons.mp h
    rw [settleItems?, hitem, ih hitems]
    rfl

theorem settleMembers?_eq_self {depth : Nat} {members : List Member}
    (hkeys : ∀ member ∈ members, member.1.isSome)
    (hvalues : ∀ member ∈ members, settle? depth member.2 = some member.2) :
    settleMembers? depth members = some members := by
  induction members with
  | nil => rfl
  | cons member members ih =>
    obtain ⟨hkey, hlater⟩ := List.forall_mem_cons.mp hkeys
    obtain ⟨hvalue, hrest⟩ := List.forall_mem_cons.mp hvalues
    obtain ⟨key, value⟩ := member
    obtain ⟨key, rfl⟩ := Option.isSome_iff_exists.mp hkey
    rw [settleMembers?, hvalue, ih hlater hrest]
    rfl

theorem settle?_array {depth : Nat} {items : List Json}
    (h : ∀ item ∈ items, settle? depth item = some item) :
    settle? (depth + 1) (.array items) = some (.array items) := by
  rw [settle?, settleItems?_eq_self h]
  rfl

theorem settle?_object {depth : Nat} {names : List String} (h : names.Nodup) {values : List Json}
    (hvalues : ∀ value ∈ values, settle? depth value = some value) :
    settle? (depth + 1) (.object (fieldMembers names values)) =
      some (.object (fieldMembers names values)) := by
  have hmembers : settleMembers? depth (fieldMembers names values) =
      some (fieldMembers names values) :=
    settleMembers?_eq_self isSome_key fun found hmem => hvalues found.2 (mem_fieldMembers hmem).2
  rw [settle?, hmembers, Option.map_some, lastMembers_eq_self (nodup_keys h values)]

theorem settle?_natural {depth n : Nat} (h : n < 18446744073709551616) :
    settle? depth (.natural n) = some (.natural n) := by
  rw [natural, settle?, if_pos (Numeral.isFinite_ofNat h)]

end Parley.Json
