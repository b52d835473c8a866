import Parley.Document.Conversations
import Mathlib.Data.List.Nodup

/-!
# What a registry takes from a document

A text that is no document, and a document without an object for the NPCs, give no registry at all.
From any other document each NPC has the conversation that its own member makes, if it makes one.
What the members of other NPCs hold does not matter to it, nor where they stand.
-/

namespace Parley

namespace Json

/-- The document that a text is, if it is one. -/
def value? (text : List Char) : Option Json :=
  read? text >>= settle? depthLimit

/-- The document is an object with this member. -/
def Has (document : Json) (key : String) (value : Json) : Prop :=
  ∃ members, document = .object members ∧ (some key, value) ∈ members

/-- No object in the document gives a key twice. -/
inductive Distinct : Json → Prop
  | null : Distinct .null
  | bool (value : Bool) : Distinct (.bool value)
  | number (numeral : Numeral) : Distinct (.number numeral)
  | string (text : Option String) : Distinct (.string text)
  | array {items : List Json} (hitems : ∀ item ∈ items, Distinct item) : Distinct (.array items)
  | object {members : List Member} (hkeys : (members.map Prod.fst).Nodup)
      (hvalues : ∀ member ∈ members, Distinct member.2) : Distinct (.object members)

theorem lastMembers_sublist (members : List Member) : (lastMembers members).Sublist members := by
  induction members with
  | nil => exact List.Sublist.refl []
  | cons member rest ih =>
    rw [lastMembers]
    split
    · exact ih.cons member
    · exact ih.cons_cons member

theorem nodup_lastMembers (members : List Member) :
    ((lastMembers members).map Prod.fst).Nodup := by
  induction members with
  | nil => exact List.nodup_nil
  | cons member rest ih =>
    rw [lastMembers]
    split
    · exact ih
    · next hlast =>
      refine List.nodup_cons.mpr ⟨fun hmem => hlast ?_, ih⟩
      obtain ⟨later, hlater, hkey⟩ := List.mem_map.mp hmem
      exact List.any_eq_true.mpr
        ⟨later, (lastMembers_sublist rest).subset hlater, decide_eq_true hkey⟩

mutual

theorem distinct_of_settle? {depth : Nat} {json document : Json}
    (h : settle? depth json = some document) : document.Distinct := by
  match json, h with
  | .null, h =>
    obtain rfl := Option.some.inj h
    exact .null
  | .bool value, h =>
    obtain rfl := Option.some.inj h
    exact .bool value
  | .number numeral, h =>
    rw [settle?, Option.ite_none_right_eq_some] at h
    obtain rfl := Option.some.inj h.2
    exact .number numeral
  | .string (some text), h =>
    obtain rfl := Option.some.inj h
    exact .string text
  | .array items, h =>
    cases depth with
    | zero => cases h
    | succ depth =>
      obtain ⟨settled, hsettled, rfl⟩ := Option.map_eq_some_iff.mp h
      exact .array (distinct_of_settleItems? hsettled)
  | .object members, h =>
    cases depth with
    | zero => cases h
    | succ depth =>
      obtain ⟨settled, hsettled, rfl⟩ := Option.map_eq_some_iff.mp h
      have hvalues := distinct_of_settleMembers? hsettled
      refine .object (nodup_lastMembers settled) fun member hmem => ?_
      exact hvalues member ((lastMembers_sublist settled).subset hmem)

theorem distinct_of_settleItems? {depth : Nat} {items settled : List Json}
    (h : settleItems? depth items = some settled) : ∀ item ∈ settled, item.Distinct := by
  match items, h with
  | [], h =>
    obtain rfl := Option.some.inj h
    exact fun _ hmem => absurd hmem List.not_mem_nil
  | item :: rest, h =>
    obtain ⟨first, hfirst, h⟩ := Option.bind_eq_some_iff.mp h
    obtain ⟨others, hothers, h⟩ := Option.bind_eq_some_iff.mp h
    obtain rfl := Option.some.inj h
    exact List.forall_mem_cons.mpr ⟨distinct_of_settle? hfirst, distinct_of_settleItems? hothers⟩

theorem distinct_of_settleMembers? {depth : Nat} {members settled : List Member}
    (h : settleMembers? depth members = some settled) :
    ∀ member ∈ settled, member.2.Distinct := by
  match members, h with
  | [], h =>
    obtain rfl := Option.some.inj h
    exact fun _ hmem => absurd hmem List.not_mem_nil
  | (some key, value) :: rest, h =>
    obtain ⟨first, hfirst, h⟩ := Option.bind_eq_some_iff.mp h
    obtain ⟨others, hothers, h⟩ := Option.bind_eq_some_iff.mp h
    obtain rfl := Option.some.inj h
    exact List.forall_mem_cons.mpr ⟨distinct_of_settle? hfirst, distinct_of_settleMembers? hothers⟩

end

theorem distinct_of_value? {text : List Char} {document : Json}
    (h : value? text = some document) : document.Distinct := by
  obtain ⟨json, -, hsettle⟩ := Option.bind_eq_some_iff.mp h
  exact distinct_of_settle? hsettle

theorem find?_key_eq_some_iff {members : List Member} (h : (members.map Prod.fst).Nodup)
    {key : String} {member : Member} :
    members.find? (·.1 = some key) = some member ↔ member ∈ members ∧ member.1 = some key := by
  constructor
  · intro hfind
    have hkey := List.find?_some hfind
    exact ⟨List.mem_of_find?_eq_some hfind, of_decide_eq_true hkey⟩
  · rintro ⟨hmem, hkey⟩
    have hfound : (members.find? (·.1 = some key)).isSome :=
      List.find?_isSome.mpr ⟨member, hmem, decide_eq_true hkey⟩
    obtain ⟨found, hfind⟩ := Option.isSome_iff_exists.mp hfound
    have hmatch := List.find?_some hfind
    have hsame : found.1 = member.1 := (of_decide_eq_true hmatch).trans hkey.symm
    rw [hfind, List.inj_on_of_nodup_map h (List.mem_of_find?_eq_some hfind) hmem hsame]

theorem get?_eq_some_iff {document : Json} (h : document.Distinct) {key : String} {value : Json} :
    document.get? key = some value ↔ document.Has key value := by
  cases h with
  | object hkeys =>
    rw [get?, Option.map_eq_some_iff]
    constructor
    · rintro ⟨⟨found, value⟩, hfind, rfl⟩
      obtain ⟨hmem, rfl⟩ := (find?_key_eq_some_iff hkeys).mp hfind
      exact ⟨_, rfl, hmem⟩
    · rintro ⟨members, hmembers, hmem⟩
      obtain rfl := Json.object.inj hmembers
      exact ⟨(some key, value), (find?_key_eq_some_iff hkeys).mpr ⟨hmem, rfl⟩, rfl⟩
  | null | bool | number | string | array =>
    constructor
    · intro hget
      cases hget
    · rintro ⟨members, hmembers, -⟩
      cases hmembers

theorem Distinct.of_has {document value : Json} {key : String} (h : document.Distinct)
    (hvalue : document.Has key value) : value.Distinct := by
  obtain ⟨members, rfl, hmem⟩ := hvalue
  cases h with
  | object _ hvalues => exact hvalues _ hmem

end Json

namespace Registry

/-- The conversation kept under a name, if there is one. -/
def find? (registry : Registry) (name : String) : Option (List Line) :=
  registry.conversations[name]?

theorem has_eq (registry : Registry) (name : String) :
    registry.has name = (registry.find? name).isSome := by
  simp [has, find?]

theorem entries_eq (registry : Registry) (name : String) :
    registry.entries name = (registry.find? name).getD [] := rfl

@[simp]
theorem find?_empty (name : String) : empty.find? name = none := by
  simp [empty, find?]

theorem find?_insert (registry : Registry) (name : String) (lines : List Line) (npc : String) :
    (registry.insert name lines).find? npc
      = if name = npc then some lines else registry.find? npc := by
  simp [insert, find?, Std.TreeMap.getElem?_insert]

theorem find?_addMember (registry : Registry) (member : Json.Member) (name : String) :
    (registry.addMember member).find? name =
      if member.1 = some name then (conversation? member.2).or (registry.find? name)
      else registry.find? name := by
  obtain ⟨key, npc⟩ := member
  cases key with
  | none => simp [addMember]
  | some key =>
    cases hlines : conversation? npc with
    | none => simp [addMember, hlines]
    | some lines => simp [addMember, hlines, find?_insert]

/-- Members with other keys do not touch the conversation under a name. -/
theorem find?_foldl_addMember_of_ne {members : List Json.Member} {name : String}
    (h : some name ∉ members.map Prod.fst) (registry : Registry) :
    (members.foldl addMember registry).find? name = registry.find? name := by
  induction members generalizing registry with
  | nil => rfl
  | cons member rest ih =>
    obtain ⟨hkey, hrest⟩ := List.ne_and_not_mem_of_not_mem_cons h
    rw [List.foldl_cons, ih hrest, find?_addMember, if_neg (Ne.symm hkey)]

theorem find?_foldl_addMember {members : List Json.Member}
    (h : (members.map Prod.fst).Nodup) {name : String} {npc : Json}
    (hnpc : (some name, npc) ∈ members) (registry : Registry) :
    (members.foldl addMember registry).find? name =
      (conversation? npc).or (registry.find? name) := by
  induction members generalizing registry with
  | nil => cases hnpc
  | cons member rest ih =>
    obtain ⟨hkey, hrest⟩ := List.nodup_cons.mp h
    rw [List.foldl_cons]
    rcases List.mem_cons.mp hnpc with rfl | hmem
    -- No later member has the key again, so what this one adds stays.
    · rw [find?_foldl_addMember_of_ne hkey, find?_addMember, if_pos rfl]
    · have hne : member.1 ≠ some name := by
        intro heq
        exact hkey (heq ▸ List.mem_map_of_mem hmem)
      rw [ih hrest hmem, find?_addMember, if_neg hne]

/-- Among these members, that of the NPC holds records that make a conversation, and these are the
lines that open it. -/
def Tells (npcs : List Json.Member) (name : String) (lines : List Line) : Prop :=
  ∃ npc conversations records, (some name, npc) ∈ npcs ∧ npc.Has "conversations" conversations ∧
    Record.listOfJson? conversations = some records ∧ Conversation.build records = .ok lines

theorem conversation?_eq_some_iff {npc : Json} (h : npc.Distinct) {lines : List Line} :
    conversation? npc = some lines ↔
      ∃ conversations records, npc.Has "conversations" conversations ∧
        Record.listOfJson? conversations = some records ∧
        Conversation.build records = .ok lines := by
  have hbuild : ∀ result : Except BuildError (List Line),
      result.toOption = some lines ↔ result = .ok lines := by
    intro result
    cases result <;> simp [Except.toOption]
  simp only [conversation?, Option.bind_eq_some_iff, Json.get?_eq_some_iff h, hbuild]
  constructor
  · rintro ⟨conversations, hhas, records, hrecords, hlines⟩
    exact ⟨conversations, records, hhas, hrecords, hlines⟩
  · rintro ⟨conversations, records, hhas, hrecords, hlines⟩
    exact ⟨conversations, hhas, records, hrecords, hlines⟩

theorem find?_eq_some_iff_tells {npcs : List Json.Member} (h : (Json.object npcs).Distinct)
    {name : String} {lines : List Line} :
    (npcs.foldl addMember empty).find? name = some lines ↔ Tells npcs name lines := by
  cases h with
  | object hkeys hvalues =>
    by_cases hname : some name ∈ npcs.map Prod.fst
    · obtain ⟨⟨key, npc⟩, hmem, rfl⟩ := List.mem_map.mp hname
      rw [find?_foldl_addMember hkeys hmem, find?_empty, Option.or_none,
        conversation?_eq_some_iff (hvalues _ hmem)]
      constructor
      · rintro ⟨conversations, records, htells⟩
        exact ⟨npc, conversations, records, hmem, htells⟩
      · rintro ⟨other, conversations, records, hother, htells⟩
        have hsame := List.inj_on_of_nodup_map hkeys hother hmem rfl
        obtain ⟨-, rfl⟩ := Prod.mk.inj hsame
        exact ⟨conversations, records, htells⟩
    · rw [find?_foldl_addMember_of_ne hname, find?_empty]
      constructor
      · intro hnone
        cases hnone
      · rintro ⟨npc, -, -, hmem, -⟩
        exact absurd (List.mem_map_of_mem hmem) hname

/-- The registry has a conversation for just the NPCs whose members make one, and it is the one
that they make. -/
structure Gives (registry : Registry) (npcs : List Json.Member) : Prop where
  has_iff : ∀ name, registry.has name ↔ ∃ lines, Tells npcs name lines
  entries_eq : ∀ name lines, Tells npcs name lines → registry.entries name = lines
  entries_nil : ∀ name, (¬ ∃ lines, Tells npcs name lines) → registry.entries name = []

theorem gives_of_distinct {npcs : List Json.Member} (h : (Json.object npcs).Distinct) :
    (npcs.foldl addMember empty).Gives npcs := by
  constructor
  · intro name
    simp only [has_eq, Option.isSome_iff_exists, find?_eq_some_iff_tells h]
  · intro name lines htells
    rw [entries_eq, (find?_eq_some_iff_tells h).mpr htells, Option.getD_some]
  · intro name hnone
    have hfind : (npcs.foldl addMember empty).find? name = none := by
      refine Option.eq_none_iff_forall_ne_some.mpr fun lines hlines => hnone ⟨lines, ?_⟩
      exact (find?_eq_some_iff_tells h).mp hlines
    rw [entries_eq, hfind, Option.getD_none]

/-- Both registries have the same conversation under the name, or both have none. -/
def SameAt (registry registry' : Registry) (name : String) : Prop :=
  registry.has name = registry'.has name ∧ registry.entries name = registry'.entries name

theorem Gives.sameAt {registry registry' : Registry} {npcs npcs' : List Json.Member}
    (h : registry.Gives npcs) (h' : registry'.Gives npcs') {name : String}
    (hsame : ∀ npc, (some name, npc) ∈ npcs ↔ (some name, npc) ∈ npcs') :
    registry.SameAt registry' name := by
  have htells : ∀ lines, Tells npcs name lines ↔ Tells npcs' name lines := by
    intro lines
    simp only [Tells, hsame]
  refine ⟨Bool.eq_iff_iff.mpr ?_, ?_⟩
  · simp only [h.has_iff, h'.has_iff, htells]
  · by_cases hlines : ∃ lines, Tells npcs name lines
    · obtain ⟨lines, hlines⟩ := hlines
      rw [h.entries_eq name lines hlines, h'.entries_eq name lines ((htells lines).mp hlines)]
    · have hlines' : ¬ ∃ lines, Tells npcs' name lines := by simpa only [htells] using hlines
      rw [h.entries_nil name hlines, h'.entries_nil name hlines']

/-- The text is a document, and these are the members that it has for the NPCs. -/
def Lists (text : List Char) (npcs : List Json.Member) : Prop :=
  ∃ document, Json.value? text = some document ∧ document.Has "npcs" (.object npcs)

theorem ofText_eq (text : List Char) :
    ofText text =
      match Json.value? text with
      | some document => ofJson document
      | none => .error .malformed := rfl

theorem ofText_of_lists {text : List Char} {npcs : List Json.Member} (h : Lists text npcs) :
    ∃ registry, ofText text = .ok registry ∧ registry.Gives npcs := by
  obtain ⟨document, hvalue, hhas⟩ := h
  have hdistinct := Json.distinct_of_value? hvalue
  have hget := (Json.get?_eq_some_iff hdistinct).mpr hhas
  refine ⟨npcs.foldl addMember empty, ?_, gives_of_distinct (hdistinct.of_has hhas)⟩
  simp only [ofText_eq, hvalue, ofJson, hget]

theorem ofText_of_not_has {text : List Char} {document : Json}
    (hvalue : Json.value? text = some document)
    (h : ¬ ∃ npcs, document.Has "npcs" (.object npcs)) : ofText text = .error .noNpcs := by
  have hdistinct := Json.distinct_of_value? hvalue
  simp only [ofText_eq, hvalue, ofJson]
  split
  · next npcs hget => exact absurd ⟨npcs, (Json.get?_eq_some_iff hdistinct).mp hget⟩ h
  · rfl

/-- A text gives one of three: no document, a document without members for NPCs, or a registry that
gives each NPC what its own member tells. -/
theorem ofText_cases (text : List Char) :
    (Json.value? text = none ∧ ofText text = .error .malformed) ∨
      (∃ document, Json.value? text = some document ∧
        (¬ ∃ npcs, document.Has "npcs" (.object npcs)) ∧ ofText text = .error .noNpcs) ∨
      ∃ npcs registry, Lists text npcs ∧ ofText text = .ok registry ∧ registry.Gives npcs := by
  cases hvalue : Json.value? text with
  | none =>
    refine .inl ⟨rfl, ?_⟩
    rw [ofText_eq, hvalue]
  | some document =>
    by_cases hhas : ∃ npcs, document.Has "npcs" (.object npcs)
    · obtain ⟨npcs, hhas⟩ := hhas
      obtain ⟨registry, htext, hgives⟩ := ofText_of_lists ⟨document, hvalue, hhas⟩
      exact .inr (.inr ⟨npcs, registry, ⟨document, hvalue, hhas⟩, htext, hgives⟩)
    · exact .inr (.inl ⟨document, rfl, hhas, ofText_of_not_has hvalue hhas⟩)

/-- A text is refused if and only if it is no document, or a document without members for NPCs. Any
other text gives a registry that follows these members name by name, so that neither their order nor
what is put in place of another NPC changes the conversation of an NPC. -/
theorem registry_follows_members (text : List Char) :
    (ofText text = .error .malformed ↔ Json.value? text = none) ∧
    (ofText text = .error .noNpcs ↔
      ∃ document, Json.value? text = some document ∧
        ¬ ∃ npcs, document.Has "npcs" (.object npcs)) ∧
    ∀ npcs, Lists text npcs →
      ∃ registry, ofText text = .ok registry ∧ registry.Gives npcs ∧
        ∀ text' npcs', Lists text' npcs' →
          ∃ registry', ofText text' = .ok registry' ∧
            (npcs.Perm npcs' → ∀ name, registry.SameAt registry' name) ∧
            ∀ front other npc npc' back, npcs = front ++ (some other, npc) :: back →
              npcs' = front ++ (some other, npc') :: back →
              ∀ name, name ≠ other → registry.SameAt registry' name := by
  refine ⟨?_, ?_, fun npcs hlists => ?_⟩
  · rcases ofText_cases text with ⟨hvalue, htext⟩ | ⟨document, hvalue, -, htext⟩ |
      ⟨npcs, registry, ⟨document, hvalue, -⟩, htext, -⟩
    all_goals simp [hvalue, htext]
  · rcases ofText_cases text with ⟨hvalue, htext⟩ | ⟨document, hvalue, hhas, htext⟩ |
      ⟨npcs, registry, ⟨document, hvalue, hhas⟩, htext, -⟩
    · simp [hvalue, htext]
    · simp only [hvalue, htext, Option.some.injEq, exists_eq_left', hhas, not_false_eq_true]
    · simp only [hvalue, htext, reduceCtorEq, Option.some.injEq, exists_eq_left', false_iff]
      exact not_not_intro ⟨npcs, hhas⟩
  · obtain ⟨registry, htext, hgives⟩ := ofText_of_lists hlists
    refine ⟨registry, htext, hgives, fun text' npcs' hlists' => ?_⟩
    obtain ⟨registry', htext', hgives'⟩ := ofText_of_lists hlists'
    refine ⟨registry', htext', fun hperm name => ?_, ?_⟩
    · exact hgives.sameAt hgives' fun npc => hperm.mem_iff
    · rintro front other npc npc' back rfl rfl name hname
      refine hgives.sameAt hgives' fun value => ?_
      simp [hname]

/-- One NPC with a conversation, one whose record has no text, and one that is a number. -/
def gatehouse : List Char :=
  ("\x7b\"npcs\": \x7b\"Rat\": 7, "
    ++ "\"Mute\": \x7b\"conversations\": [[\"\", \"\", \"none\", \"attack\"]]\x7d, "
    ++ "\"Guard\": \x7b\"conversations\": [[\"\", \"Halt!\", \"level=5\", \"no action\"]]\x7d"
    ++ "\x7d\x7d").toList

theorem gatehouse_loaded :
    ∃ npcs registry, Lists gatehouse npcs ∧ ofText gatehouse = .ok registry ∧
      registry.Gives npcs ∧ registry.has "Guard" = true ∧ registry.has "Mute" = false := by
  have hnames : (ofText gatehouse).toOption.map
      (fun registry => (registry.has "Guard", registry.has "Mute")) = some (true, false) := by
    decide +kernel
  rcases ofText_cases gatehouse with ⟨-, htext⟩ | ⟨-, -, -, htext⟩ | ⟨npcs, -, hlists, -⟩
  · rw [htext] at hnames
    cases hnames
  · rw [htext] at hnames
    cases hnames
  · obtain ⟨registry, htext, hgives, -⟩ := (registry_follows_members gatehouse).2.2 npcs hlists
    rw [htext] at hnames
    obtain ⟨hguard, hmute⟩ := Prod.mk.inj (Option.some.inj hnames)
    exact ⟨npcs, registry, hlists, htext, hgives, hguard, hmute⟩

end Registry

end Parley
