import Parley.Json.Numeral

/-!
# JSON tokens

The tokens of a JSON document. Between tokens stand spaces, tabs and line ends; what is between the
quotes of a string is a sequence of characters and of surrogate halves, and it is text if the
halves pair up.
-/

namespace Parley.Json

inductive Token
  | openArray
  | closeArray
  | openObject
  | closeObject
  | comma
  | colon
  | null
  | bool (value : Bool)
  | number (numeral : Numeral)
  | string (text : Option String)

/-- A piece of a string: a character, or half of a surrogate pair. -/
inductive Piece
  | char (c : Char)
  | half (unit : Nat)

def hexDigit? (c : Char) : Option Nat :=
  if '0' ≤ c ∧ c ≤ '9' then some (c.toNat - 48)
  else if 'a' ≤ c ∧ c ≤ 'f' then some (c.toNat - 87)
  else if 'A' ≤ c ∧ c ≤ 'F' then some (c.toNat - 55)
  else none

/-- The piece given by its number, as four hexadecimal digits. -/
def numbered? (a b c d : Char) : Option Piece := do
  let unit :=
    (← hexDigit? a) * 4096 + (← hexDigit? b) * 256 + (← hexDigit? c) * 16 + (← hexDigit? d)
  some (if 0xD800 ≤ unit ∧ unit ≤ 0xDFFF then .half unit else .char (Char.ofNat unit))

def lettered? (c : Char) : Option Piece :=
  match c with
  | '"' => some (.char '"')
  | '\\' => some (.char '\\')
  | '/' => some (.char '/')
  | 'b' => some (.char '\x08')
  | 'f' => some (.char '\x0c')
  | 'n' => some (.char '\n')
  | 'r' => some (.char '\r')
  | 't' => some (.char '\t')
  | _ => none

/-- The pieces up to the closing quote, after those already read, and what follows the quote. -/
def pieces? (before : List Piece) : List Char → Option (List Piece × List Char)
  | [] => none
  | '"' :: rest => some (before.reverse, rest)
  | '\\' :: 'u' :: a :: b :: c :: d :: rest =>
    match numbered? a b c d with
    | some piece => pieces? (piece :: before) rest
    | none => none
  | '\\' :: c :: rest =>
    match lettered? c with
    | some piece => pieces? (piece :: before) rest
    | none => none
  | c :: rest => if c.toNat < 0x20 then none else pieces? (.char c :: before) rest

/-- The text of the pieces, if each first half stands before a second half and each second half
after a first one. -/
def pair : List Piece → Option (List Char)
  | [] => some []
  | .char c :: rest => (pair rest).map (c :: ·)
  | .half first :: .half second :: rest =>
    if first < 0xDC00 ∧ 0xDC00 ≤ second then
      (pair rest).map (Char.ofNat (0x10000 + (first - 0xD800) * 0x400 + (second - 0xDC00)) :: ·)
    else none
  | .half _ :: _ => none

namespace Token

/-- A word without quotes, of which the first character is already read. -/
def word? (token : Token) (rest : List Char) (text : List Char) : Option (Token × List Char) :=
  if rest.isPrefixOf text then some (token, text.drop rest.length) else none

/-- The token in front of a text that begins with `c`, and what follows it. -/
def next? (c : Char) (rest : List Char) : Option (Token × List Char) :=
  match c with
  | '[' => some (openArray, rest)
  | ']' => some (closeArray, rest)
  | '\x7b' => some (openObject, rest)
  | '\x7d' => some (closeObject, rest)
  | ',' => some (comma, rest)
  | ':' => some (colon, rest)
  | 'n' => word? null ['u', 'l', 'l'] rest
  | 't' => word? (bool true) ['r', 'u', 'e'] rest
  | 'f' => word? (bool false) ['a', 'l', 's', 'e'] rest
  | '"' =>
    (pieces? [] rest).map fun (pieces, rest) => (string ((pair pieces).map String.ofList), rest)
  | _ => (Numeral.read? (c :: rest)).map fun (numeral, rest) => (number numeral, rest)

def isSpace (c : Char) : Bool :=
  c = ' ' ∨ c = '\t' ∨ c = '\n' ∨ c = '\r'

theorem length_of_pieces? {before pieces : List Piece} {text rest : List Char}
    (h : pieces? before text = some (pieces, rest)) : rest.length < text.length := by
  fun_induction pieces? before text with
  | case1 => simp at h
  | case2 => simp_all
  | case3 _ _ _ _ _ _ _ _ ih =>
    have hrest := ih h
    simp only [List.length_cons]
    omega
  | case4 => simp at h
  | case5 _ _ _ _ _ _ ih =>
    have hrest := ih h
    simp only [List.length_cons]
    omega
  | case6 => simp at h
  | case7 => simp at h
  | case8 _ _ _ _ _ _ _ ih =>
    have hrest := ih h
    simp only [List.length_cons]
    omega

theorem length_of_word? {token found : Token} {word text rest : List Char}
    (h : word? token word text = some (found, rest)) : rest.length ≤ text.length := by
  simp only [word?] at h
  split at h
  · obtain ⟨-, rfl⟩ := Prod.mk.inj (Option.some.inj h)
    simp
  · simp at h

theorem length_of_next? {c : Char} {rest after : List Char} {token : Token}
    (h : next? c rest = some (token, after)) : after.length < (c :: rest).length := by
  unfold next? at h
  split at h
  all_goals try
    obtain ⟨-, rfl⟩ := Prod.mk.inj (Option.some.inj h)
    simp
  all_goals try exact Nat.lt_succ_of_le (length_of_word? h)
  · obtain ⟨⟨pieces, rest⟩, hfound, hsame⟩ := Option.map_eq_some_iff.mp h
    obtain ⟨-, rfl⟩ := Prod.mk.inj hsame
    exact Nat.lt_succ_of_lt (length_of_pieces? hfound)
  · obtain ⟨⟨numeral, rest⟩, hfound, hsame⟩ := Option.map_eq_some_iff.mp h
    obtain ⟨-, rfl⟩ := Prod.mk.inj hsame
    exact Numeral.length_of_read? hfound

/-- The tokens of a text, after those already read. -/
def scan (before : List Token) (text : List Char) : Option (List Token) :=
  match text with
  | [] => some before.reverse
  | c :: rest =>
    if isSpace c then scan before rest
    else
      match _hfound : next? c rest with
      | none => none
      | some (token, after) => scan (token :: before) after
termination_by text.length
decreasing_by
  · simp
  · exact length_of_next? _hfound

def ofText? (text : List Char) : Option (List Token) :=
  scan [] text

end Token

end Parley.Json
