import Parley.Toml.Scanner

/-!
# TOML strings

Blanks, comments and strings of TOML. A basic string knows escapes, a literal string knows none;
both have a form over several lines, in which a newline right after the opening quotes does not
count and up to two quotes may stand next to the closing ones.
-/

namespace Parley.Toml

open Scanner

/-- A character that may stand in comments and strings: a tab, or no control character. -/
def isPlain (c : Char) : Bool :=
  c = '\t' ∨ (0x20 ≤ c.toNat ∧ c.toNat ≠ 0x7F)

def isBlank (c : Char) : Bool :=
  c = ' ' ∨ c = '\t'

def blanks : Scanner Unit := do
  let _ ← takeWhile isBlank

def newline : Scanner Unit :=
  word "\n" <|> word "\r\n"

def comment : Scanner Unit := do
  let _ ← char '#'
  let _ ← takeWhile isPlain

def gap : Scanner Unit := do
  let _ ← many ((do let _ ← takeSome isBlank) <|> newline <|> (comment *> newline))

/-- The end of a line, after blanks and perhaps a comment. -/
def lineEnd : Scanner Unit := do
  blanks
  let _ ← optional comment
  newline <|> atEnd

def isHexDigit (c : Char) : Bool :=
  c.isDigit ∨ ('a' ≤ c ∧ c ≤ 'f') ∨ ('A' ≤ c ∧ c ≤ 'F')

def hexValue (c : Char) : Nat :=
  if c.isDigit then c.toNat - 48 else if 'a' ≤ c then c.toNat - 87 else c.toNat - 55

/-- The character with the number that the given count of hexadecimal digits writes. -/
def numbered : Nat → Nat → Scanner (List Char)
  | 0, number => if h : number.isValidChar then pure [Char.ofNatAux number h] else failure
  | count + 1, number => do
    let digit ← satisfy isHexDigit
    numbered count (number * 16 + hexValue digit)

def escaped : Scanner (List Char) := do
  let _ ← char '\\'
  let letter ← satisfy fun _ => true
  match letter with
  | 'b' => pure ['\x08']
  | 't' => pure ['\t']
  | 'n' => pure ['\n']
  | 'f' => pure ['\x0c']
  | 'r' => pure ['\r']
  | '"' => pure ['"']
  | '\\' => pure ['\\']
  | 'u' => numbered 4 0
  | 'U' => numbered 8 0
  | _ => failure

def basicText : Scanner (List Char) :=
  takeSome fun c => isPlain c && c != '"' && c != '\\'

def literalText : Scanner (List Char) :=
  takeSome fun c => isPlain c && c != '\''

def basicString : Scanner (List Char) := do
  let _ ← char '"'
  let parts ← many (basicText <|> escaped)
  let _ ← char '"'
  pure parts.flatten

def literalString : Scanner (List Char) := do
  let _ ← char '\''
  let parts ← many literalText
  let _ ← char '\''
  pure parts.flatten

/-- A newline inside a string is a line feed, however it is written. -/
def lineFeed : Scanner (List Char) := do
  newline
  pure ['\n']

/-- A backslash at the end of a line takes away the blanks and newlines after it. -/
def continuation : Scanner (List Char) := do
  let _ ← char '\\'
  blanks
  newline
  let _ ← many (newline <|> (do let _ ← takeSome isBlank))
  pure []

/-- One or two quotes, if `next` stands behind them. -/
def quotesBefore {α : Type} (quote : Char) (next : Scanner α) : Scanner (List Char) :=
  (do
    let first ← char quote
    let second ← char quote
    ahead next
    pure [first, second])
  <|> (do
    let only ← char quote
    ahead next
    pure [only])

def delimiter (quote : Char) : Scanner Unit := do
  let _ ← char quote
  let _ ← char quote
  let _ ← char quote

/-- A string over several lines, between triple quotes. -/
def multiline (quote : Char) (content : Scanner (List Char)) : Scanner (List Char) := do
  delimiter quote
  let _ ← optional newline
  let parts ← many (content <|> quotesBefore quote content)
  let last ← quotesBefore quote (delimiter quote) <|> pure []
  delimiter quote
  pure (parts.flatten ++ last)

def string : Scanner String := do
  let text ←
    multiline '"' (basicText <|> continuation <|> escaped <|> lineFeed)
      <|> basicString
      <|> multiline '\'' (literalText <|> lineFeed)
      <|> literalString
  pure (String.ofList text)

end Parley.Toml
