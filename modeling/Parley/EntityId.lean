/-!
# Identifiers of entities

An identifier has 32 hexadecimal digits, shown in lower case in five groups with hyphens between
them. It is read in the shown form, without the hyphens, between braces, or as a URN, with letters
of either case.
-/

namespace Parley

structure EntityId where
  digits : Vector (Fin 16) 32
deriving DecidableEq

namespace EntityId

def nil : EntityId :=
  ⟨Vector.replicate 32 0⟩

def digit? (c : Char) : Option (Fin 16) :=
  if '0' ≤ c ∧ c ≤ '9' then some (Fin.ofNat 16 (c.toNat - 48))
  else if 'a' ≤ c ∧ c ≤ 'f' then some (Fin.ofNat 16 (c.toNat - 87))
  else if 'A' ≤ c ∧ c ≤ 'F' then some (Fin.ofNat 16 (c.toNat - 55))
  else none

def digitChar (d : Fin 16) : Char :=
  if d.val < 10 then Char.ofNat (48 + d.val) else Char.ofNat (87 + d.val)

@[simp]
theorem digit?_digitChar (d : Fin 16) : digit? (digitChar d) = some d := by
  revert d
  decide

def ofDigits? (text : List Char) : Option EntityId := do
  let digits ← text.mapM digit?
  if h : digits.toArray.size = 32 then some ⟨⟨digits.toArray, h⟩⟩ else none

/-- The sizes of the groups that are shown before a hyphen; the rest is the last group. -/
def groupSizes : List Nat :=
  [8, 4, 4, 4]

def hyphenate : List Nat → List Char → List Char
  | [], text => text
  | size :: sizes, text => text.take size ++ '-' :: hyphenate sizes (text.drop size)

def unhyphenate? : List Nat → List Char → Option (List Char)
  | [], text => some text
  | size :: sizes, text =>
    match text.drop size with
    | '-' :: rest => (unhyphenate? sizes rest).map (text.take size ++ ·)
    | _ => none

theorem unhyphenate?_hyphenate {sizes : List Nat} {text : List Char}
    (henough : sizes.foldr (· + ·) 0 ≤ text.length) :
    unhyphenate? sizes (hyphenate sizes text) = some text := by
  induction sizes generalizing text with
  | nil => rfl
  | cons size sizes ih =>
    rw [List.foldr_cons] at henough
    have hfront : (text.take size).length = size := by rw [List.length_take]; omega
    have hback : sizes.foldr (· + ·) 0 ≤ (text.drop size).length := by rw [List.length_drop]; omega
    simp [hyphenate, unhyphenate?, hfront, ih hback]

theorem length_hyphenate {sizes : List Nat} {text : List Char}
    (henough : sizes.foldr (· + ·) 0 ≤ text.length) :
    (hyphenate sizes text).length = text.length + sizes.length := by
  induction sizes generalizing text with
  | nil => rfl
  | cons size sizes ih =>
    rw [List.foldr_cons] at henough
    have hback : sizes.foldr (· + ·) 0 ≤ (text.drop size).length := by rw [List.length_drop]; omega
    simp only [hyphenate, List.length_append, List.length_cons, ih hback, List.length_take,
      List.length_drop]
    omega

def ofHyphenated? (text : List Char) : Option EntityId :=
  unhyphenate? groupSizes text >>= ofDigits?

def urn : List Char :=
  "urn:uuid:".toList

def ofText? (text : List Char) : Option EntityId :=
  if text.length = 32 then ofDigits? text
  else if text.length = 36 then ofHyphenated? text
  else if text.length = 38 ∧ text.head? = some '\x7b' ∧ text.getLast? = some '\x7d' then
    ofHyphenated? (text.drop 1).dropLast
  else if text.length = 45 ∧ (text.take urn.length).map Char.toLower = urn then
    ofHyphenated? (text.drop urn.length)
  else none

def toText (id : EntityId) : List Char :=
  hyphenate groupSizes (id.digits.toList.map digitChar)

theorem mapM_digit?_digitChar (digits : List (Fin 16)) :
    (digits.map digitChar).mapM digit? = some digits := by
  induction digits with
  | nil => rfl
  | cons digit rest ih => rw [List.map_cons, List.mapM_cons, digit?_digitChar, ih]; rfl

theorem ofDigits?_map_digitChar (id : EntityId) :
    ofDigits? (id.digits.toList.map digitChar) = some id := by
  rw [ofDigits?, mapM_digit?_digitChar]
  obtain ⟨⟨digits, hsize⟩⟩ := id
  simp [hsize]

@[simp]
theorem ofText?_toText (id : EntityId) : ofText? id.toText = some id := by
  have henough : groupSizes.foldr (· + ·) 0 ≤ (id.digits.toList.map digitChar).length := by
    simp [groupSizes]
  have hlength : id.toText.length = 36 := by
    rw [toText, length_hyphenate henough]
    simp [groupSizes]
  have hread : ofHyphenated? id.toText = some id := by
    rw [ofHyphenated?, toText, unhyphenate?_hyphenate henough]
    exact ofDigits?_map_digitChar id
  simp [ofText?, hlength, hread]

end EntityId

end Parley
