import Parley.Proofs.Numerals
import Parley.Json.Reader
import Parley.Json.Writer

/-!
# Documents are read back as they were written

A written document scans into its tokens, and its tokens put it together again. The scanner takes
the text apart from the front, so each fact about a written part is one about that part and whatever
stands behind it; the reader takes the tokens in with the containers that are still open.
-/

namespace Parley.Json

open Numeral (Avoids goesOn)

/-- All strings of the document are text, and its numerals are in proper form. -/
inductive Proper : Json → Prop
  | null : Proper .null
  | bool (value : Bool) : Proper (.bool value)
  | number {numeral : Numeral} (hnumeral : numeral.Proper) : Proper (.number numeral)
  | text (value : String) : Proper (text value)
  | array {items : List Json} (hitems : ∀ item ∈ items, Proper item) : Proper (.array items)
  | object {members : List Member} (hkeys : ∀ member ∈ members, member.1.isSome)
      (hvalues : ∀ member ∈ members, Proper member.2) : Proper (.object members)

theorem hexDigit?_hexChar {d : Nat} (h : d < 16) : hexDigit? (hexChar d) = some d := by
  have hall : ∀ d < 16, hexDigit? (hexChar d) = some d := by decide
  exact hall d h

theorem numbered?_control {c : Char} (h : c.toNat < 0x20) :
    numbered? '0' '0' (hexChar (c.toNat / 16)) (hexChar (c.toNat % 16)) = some (.char c) := by
  have hzero : hexDigit? '0' = some 0 := rfl
  have hsixteens := hexDigit?_hexChar (by omega : c.toNat / 16 < 16)
  have hones := hexDigit?_hexChar (Nat.mod_lt c.toNat (by decide : 16 > 0))
  have hunit : c.toNat / 16 * 16 + c.toNat % 16 = c.toNat := Nat.div_add_mod' ..
  have hwhole : ¬(0xD800 ≤ c.toNat ∧ c.toNat ≤ 0xDFFF) := by omega
  simp only [numbered?, hzero, hsixteens, hones, Option.bind_eq_bind, Option.bind_some,
    Nat.zero_mul, Nat.zero_add, hunit, if_neg hwhole, Char.ofNat_toNat]

theorem pieces?_cons_of_plain {c : Char} (hquote : c ≠ '"') (hslash : c ≠ '\\')
    (h : ¬c.toNat < 0x20) (before : List Piece) (rest : List Char) :
    pieces? before (c :: rest) = pieces? (.char c :: before) rest := by
  rw [pieces?, if_neg h]
  · exact hquote
  · intro _ _ _ _ _ hc
    exact absurd hc hslash
  · intro _ _ hc
    exact absurd hc hslash

theorem pieces?_escape_append (before : List Piece) (c : Char) (rest : List Char) :
    pieces? before (escape c ++ rest) = pieces? (.char c :: before) rest := by
  unfold escape
  split
  case h_8 =>
    split
    · next h => simp [pieces?, numbered?_control h]
    · next hquote hslash _ _ _ _ _ h => exact pieces?_cons_of_plain hquote hslash h before rest
  -- The others are written with a letter of their own.
  all_goals simp [pieces?, lettered?]

/-- The pieces of a written string are its characters. -/
theorem pieces?_quote (before : List Piece) (text rest : List Char) :
    pieces? before (text.flatMap escape ++ '"' :: rest) =
      some (before.reverse ++ text.map .char, rest) := by
  induction text generalizing before with
  | nil => simp [pieces?]
  | cons c text ih =>
    rw [List.flatMap_cons, List.append_assoc, pieces?_escape_append, ih]
    simp

theorem pair_map_char (text : List Char) : pair (text.map .char) = some text := by
  induction text with
  | nil => rfl
  | cons c text ih => simp [pair, ih]

mutual

/-- The tokens that a document is written with. -/
def tokens : Json → List Token
  | .null => [.null]
  | .bool value => [.bool value]
  | .number numeral => [.number numeral]
  | .string text => [.string text]
  | .array [] => [.openArray, .closeArray]
  | .array (item :: items) => .openArray :: (tokens item ++ itemsTokens items)
  | .object [] => [.openObject, .closeObject]
  | .object (member :: members) => .openObject :: (memberTokens member ++ membersTokens members)

/-- The tokens of the items after the first, and of the end of the array. -/
def itemsTokens : List Json → List Token
  | [] => [.closeArray]
  | item :: items => .comma :: (tokens item ++ itemsTokens items)

def memberTokens : Member → List Token
  | (key, value) => .string key :: .colon :: tokens value

/-- The tokens of the members after the first, and of the end of the object. -/
def membersTokens : List Member → List Token
  | [] => [.closeObject]
  | member :: members => .comma :: (memberTokens member ++ membersTokens members)

end

/-- The text begins with these tokens, one right behind the other, and this is what follows. -/
inductive Scans : List Token → List Char → List Char → Prop
  | nil (rest : List Char) : Scans [] rest rest
  | cons {token : Token} {tokens : List Token} {c : Char} {text middle rest : List Char}
    (hspace : Token.isSpace c = false) (hnext : Token.next? c text = some (token, middle))
    (htokens : Scans tokens middle rest) : Scans (token :: tokens) (c :: text) rest

theorem Scans.append {front back : List Token} {text middle rest : List Char}
    (hfront : Scans front text middle) (hback : Scans back middle rest) :
    Scans (front ++ back) text rest := by
  induction hfront with
  | nil => exact hback
  | cons hspace hnext _ ih => exact .cons hspace hnext (ih hback)

theorem Scans.scan_eq {tokens : List Token} {text rest : List Char} (h : Scans tokens text rest)
    (before : List Token) :
    Token.scan before text = Token.scan (tokens.reverse ++ before) rest := by
  induction h generalizing before with
  | nil => rfl
  | @cons token tokens c text middle rest hspace hnext _ ih =>
    rw [Token.scan, hspace, List.reverse_cons, List.append_assoc, List.singleton_append, ← ih]
    simp only [Bool.false_eq_true, if_false]
    split
    · next hnone => cases hnext.symm.trans hnone
    · next found after hfound =>
      obtain ⟨rfl, rfl⟩ := Prod.mk.inj (Option.some.inj (hnext.symm.trans hfound))
      rfl

theorem scans_quoteText (value : String) (rest : List Char) :
    Scans [.string (some value)] (quoteText (some value) ++ rest) rest := by
  have hnext : Token.next? '"' (value.toList.flatMap escape ++ '"' :: rest) =
      some (.string (some value), rest) := by
    simp [Token.next?, pieces?_quote, pair_map_char]
  have htext : quoteText (some value) ++ rest =
      '"' :: (value.toList.flatMap escape ++ '"' :: rest) := by
    simp [quoteText, quote]
  rw [htext]
  exact .cons rfl hnext (.nil rest)

theorem next?_of_numeral {c : Char} (h : c = '-' ∨ c.isDigit = true) (rest : List Char) :
    Token.next? c rest =
      (Numeral.read? (c :: rest)).map fun (numeral, rest) => (.number numeral, rest) := by
  unfold Token.next?
  split
  all_goals try exact absurd h (by decide)
  rfl

theorem exists_toText_eq_cons {numeral : Numeral} (h : numeral.Proper) :
    ∃ c text, numeral.toText = c :: text ∧ (c = '-' ∨ c.isDigit = true) := by
  obtain ⟨negative, whole, fraction, exponent⟩ := numeral
  cases negative with
  | true => exact ⟨'-', _, rfl, .inl rfl⟩
  | false =>
    obtain ⟨c, rest, hwhole, hc⟩ := h.whole.exists_cons
    obtain rfl : whole = c :: rest := hwhole
    exact ⟨c, _, rfl, .inr hc⟩

theorem scans_toText {numeral : Numeral} (h : numeral.Proper) {rest : List Char}
    (hrest : Avoids goesOn rest) :
    Scans [.number numeral] (numeral.toText ++ rest) rest := by
  have hread := Numeral.read?_toText_append h hrest
  obtain ⟨c, text, htext, hc⟩ := exists_toText_eq_cons h
  rw [htext, List.cons_append] at hread ⊢
  have hspace : Token.isSpace c = false := by
    refine decide_eq_false ?_
    rintro (rfl | rfl | rfl | rfl) <;> exact absurd hc (by decide)
  refine .cons hspace ?_ (.nil rest)
  rw [next?_of_numeral hc, hread]
  rfl

theorem avoids_writeItems (items : List Json) (rest : List Char) :
    Avoids goesOn (writeItems items ++ rest) := by
  cases items <;> simp [writeItems, Avoids, goesOn]

theorem avoids_writeMembers (members : List Member) (rest : List Char) :
    Avoids goesOn (writeMembers members ++ rest) := by
  cases members <;> simp [writeMembers, Avoids, goesOn]

mutual

theorem scans_write {json : Json} (h : json.Proper) {rest : List Char}
    (hrest : Avoids goesOn rest) : Scans json.tokens (json.write ++ rest) rest := by
  match json, h with
  | .null, _ => exact .cons rfl rfl (.nil rest)
  | .bool true, _ => exact .cons rfl rfl (.nil rest)
  | .bool false, _ => exact .cons rfl rfl (.nil rest)
  | .number numeral, .number hnumeral => exact scans_toText hnumeral hrest
  | .string (some value), _ => exact scans_quoteText value rest
  | .array [], _ => exact .cons rfl rfl (.cons rfl rfl (.nil rest))
  | .array (item :: items), .array hitems =>
    obtain ⟨hitem, hitems⟩ := List.forall_mem_cons.mp hitems
    have hfirst := scans_write hitem (avoids_writeItems items rest)
    rw [write, List.cons_append, List.cons_append, List.append_assoc]
    exact .cons rfl rfl (hfirst.append (scans_writeItems hitems))
  | .object [], _ => exact .cons rfl rfl (.cons rfl rfl (.nil rest))
  | .object (member :: members), .object hkeys hvalues =>
    obtain ⟨hkey, hkeys⟩ := List.forall_mem_cons.mp hkeys
    obtain ⟨hvalue, hvalues⟩ := List.forall_mem_cons.mp hvalues
    have hfirst := scans_writeMember hkey hvalue (avoids_writeMembers members rest)
    rw [write, List.cons_append, List.cons_append, List.append_assoc]
    exact .cons rfl rfl (hfirst.append (scans_writeMembers hkeys hvalues))

theorem scans_writeItems {items : List Json} (h : ∀ item ∈ items, item.Proper)
    {rest : List Char} : Scans (itemsTokens items) (writeItems items ++ rest) rest := by
  match items, h with
  | [], _ => exact .cons rfl rfl (.nil rest)
  | item :: items, h =>
    obtain ⟨hitem, hitems⟩ := List.forall_mem_cons.mp h
    have hnext := scans_write hitem (avoids_writeItems items rest)
    rw [writeItems, List.cons_append, List.cons_append, List.append_assoc]
    exact .cons rfl rfl (hnext.append (scans_writeItems hitems))

theorem scans_writeMember {member : Member} (hkey : member.1.isSome) (hvalue : member.2.Proper)
    {rest : List Char} (hrest : Avoids goesOn rest) :
    Scans (memberTokens member) (writeMember member ++ rest) rest := by
  match member, hkey, hvalue with
  | (some key, value), _, hvalue =>
    have hwritten := scans_write hvalue hrest
    rw [writeMember, List.append_assoc, List.cons_append]
    exact (scans_quoteText key _).append (.cons rfl rfl hwritten)

theorem scans_writeMembers {members : List Member} (hkeys : ∀ member ∈ members, member.1.isSome)
    (hvalues : ∀ member ∈ members, member.2.Proper) {rest : List Char} :
    Scans (membersTokens members) (writeMembers members ++ rest) rest := by
  match members, hkeys, hvalues with
  | [], _, _ => exact .cons rfl rfl (.nil rest)
  | member :: members, hkeys, hvalues =>
    obtain ⟨hkey, hkeys⟩ := List.forall_mem_cons.mp hkeys
    obtain ⟨hvalue, hvalues⟩ := List.forall_mem_cons.mp hvalues
    have hnext := scans_writeMember hkey hvalue (avoids_writeMembers members rest)
    rw [writeMembers, List.cons_append, List.cons_append, List.append_assoc]
    exact .cons rfl rfl (hnext.append (scans_writeMembers hkeys hvalues))

end

theorem ofText?_write {json : Json} (h : json.Proper) :
    Token.ofText? json.write = some json.tokens := by
  have hend : Avoids goesOn [] := by simp [Avoids]
  have hscan := (scans_write h hend).scan_eq []
  rw [List.append_nil, List.append_nil, Token.scan, List.reverse_reverse] at hscan
  exact hscan

theorem exists_tokens_eq_cons (json : Json) :
    ∃ token rest, json.tokens = token :: rest ∧ token ≠ .closeArray := by
  cases json with
  | null | bool | number | string => exact ⟨_, _, rfl, by simp⟩
  | array items => cases items <;> exact ⟨_, _, rfl, by simp⟩
  | object members => cases members <;> exact ⟨_, _, rfl, by simp⟩

namespace Reading

/-- A value inside an array may begin with any token but the one that ends the array. -/
theorem next?_firstItem {token : Token} (h : token ≠ .closeArray) (outer : List Frame) :
    next? (firstItem outer) token = next? (value (.items [] :: outer)) token := by
  cases token with
  | closeArray => exact absurd rfl h
  | _ => rfl

theorem foldlM_firstItem (json : Json) (more : List Token) (outer : List Frame) :
    (json.tokens ++ more).foldlM next? (firstItem outer) =
      (json.tokens ++ more).foldlM next? (value (.items [] :: outer)) := by
  obtain ⟨token, rest, htokens, htoken⟩ := exists_tokens_eq_cons json
  rw [htokens, List.cons_append, List.foldlM_cons, List.foldlM_cons, next?_firstItem htoken]

mutual

/-- The tokens of a document hand it to the container around it, whatever follows. -/
theorem foldlM_tokens (json : Json) (outer : List Frame) (more : List Token) :
    (json.tokens ++ more).foldlM next? (value outer) = more.foldlM next? (put json outer) := by
  match json with
  | .null | .bool _ | .number _ | .string _ => rfl
  | .array [] => rfl
  | .array (item :: items) =>
    calc ((Json.array (item :: items)).tokens ++ more).foldlM next? (value outer)
        = (item.tokens ++ (itemsTokens items ++ more)).foldlM next? (firstItem outer) := by
          rw [tokens, List.cons_append, List.append_assoc]
          rfl
      _ = (itemsTokens items ++ more).foldlM next? (nextItem [item] outer) := by
          rw [foldlM_firstItem, foldlM_tokens item]
          rfl
      _ = more.foldlM next? (put (.array (item :: items)) outer) :=
          foldlM_itemsTokens items [item] outer more
  | .object [] => rfl
  | .object ((name, json) :: members) =>
    calc ((Json.object ((name, json) :: members)).tokens ++ more).foldlM next? (value outer)
        = (memberTokens (name, json) ++ (membersTokens members ++ more)).foldlM next?
            (key [] outer) := by
          rw [tokens, List.cons_append, List.append_assoc]
          rfl
      _ = (membersTokens members ++ more).foldlM next? (nextMember [(name, json)] outer) :=
          foldlM_memberTokens (name, json) [] outer _
      _ = more.foldlM next? (put (.object ((name, json) :: members)) outer) :=
          foldlM_membersTokens members [(name, json)] outer more

theorem foldlM_itemsTokens (items before : List Json) (outer : List Frame) (more : List Token) :
    (itemsTokens items ++ more).foldlM next? (nextItem before outer) =
      more.foldlM next? (put (.array (before.reverse ++ items)) outer) := by
  match items with
  | [] =>
    rw [List.append_nil]
    rfl
  | item :: items =>
    calc (itemsTokens (item :: items) ++ more).foldlM next? (nextItem before outer)
        = (item.tokens ++ (itemsTokens items ++ more)).foldlM next?
            (value (.items before :: outer)) := by
          rw [itemsTokens, List.cons_append, List.append_assoc]
          rfl
      _ = (itemsTokens items ++ more).foldlM next? (nextItem (item :: before) outer) :=
          foldlM_tokens item _ _
      _ = more.foldlM next? (put (.array (before.reverse ++ item :: items)) outer) := by
          rw [foldlM_itemsTokens items, List.reverse_cons, List.append_assoc]
          rfl

theorem foldlM_memberTokens (member : Member) (before : List Member) (outer : List Frame)
    (more : List Token) :
    (memberTokens member ++ more).foldlM next? (key before outer) =
      more.foldlM next? (nextMember (member :: before) outer) := by
  match member with
  | (name, json) => exact foldlM_tokens json (.member before name :: outer) more

theorem foldlM_membersTokens (members before : List Member) (outer : List Frame)
    (more : List Token) :
    (membersTokens members ++ more).foldlM next? (nextMember before outer) =
      more.foldlM next? (put (.object (before.reverse ++ members)) outer) := by
  match members with
  | [] =>
    rw [List.append_nil]
    rfl
  | member :: members =>
    calc (membersTokens (member :: members) ++ more).foldlM next? (nextMember before outer)
        = (memberTokens member ++ (membersTokens members ++ more)).foldlM next?
            (key before outer) := by
          rw [membersTokens, List.cons_append, List.append_assoc]
          rfl
      _ = (membersTokens members ++ more).foldlM next? (nextMember (member :: before) outer) :=
          foldlM_memberTokens member before outer _
      _ = more.foldlM next? (put (.object (before.reverse ++ member :: members)) outer) := by
          rw [foldlM_membersTokens members, List.reverse_cons, List.append_assoc]
          rfl

end

end Reading

/-- A document in proper form is read back as it was written. -/
theorem read?_write {json : Json} (h : json.Proper) : read? json.write = some json := by
  have htokens := Reading.foldlM_tokens json [] []
  rw [List.append_nil] at htokens
  simp [read?, ofText?_write h, htokens, Reading.put, Reading.whole?]

end Parley.Json
