import Parley.Toml.Scalar
import Parley.Toml.Table

/-!
# TOML documents

Reading a TOML document: comments, headers and settings, each on a line of its own.
-/

namespace Parley.Toml

open Scanner

/-- The greatest number of parts in a key, and of containers inside one another. -/
def limit : Nat :=
  79

def bareKey : Scanner (List Char) :=
  takeSome fun c => c.isAlphanum || c = '_' || c = '-'

def simpleKey : Scanner String := do
  let key ← basicString <|> literalString <|> bareKey
  pure (String.ofList key)

def key : Scanner (List String) := do
  let parts ← sepBySome (blanks *> simpleKey <* blanks) (char '.')
  if parts.length ≤ limit then pure parts else failure

def array (item : Scanner Value) : Scanner Value := do
  let _ ← char '['
  let items ← sepBy (gap *> item <* gap) (char ',')
  if items ≠ [] then
    let _ ← optional (char ',')
  gap
  let _ ← char ']'
  pure .other

def inlineSetting (item : Scanner Value) : Scanner (List String × Value) := do
  let key ← key
  let _ ← char '='
  blanks
  let value ← item
  blanks
  pure (key, value)

def inlineTable (item : Scanner Value) : Scanner Value := do
  let _ ← char '\x7b'
  let settings ← sepBy (inlineSetting item) (char ',')
  blanks
  let _ ← char '\x7d'
  match settings.foldlM (fun members (key, value) => Members.assign value true key members) [] with
  | some _ => pure .other
  | none => failure

def atom : Scanner Value :=
  (do pure (.string (← string))) <|> (scalar *> pure .other)

/-- A value with at most the given number of containers inside one another. -/
def value : Nat → Scanner Value
  | 0 => atom
  | depth + 1 => atom <|> array (value depth) <|> inlineTable (value depth)

def setting : Scanner Statement := do
  let key ← key
  let _ ← char '='
  blanks
  let value ← value limit
  lineEnd
  pure (.setting key value)

def header : Scanner Statement := do
  let path ← char '[' *> key <* char ']'
  lineEnd
  match path.getLast? with
  | some key => pure (.table path.dropLast key)
  | none => failure

def nextHeader : Scanner Statement := do
  let path ← word "[[" *> key <* word "]]"
  lineEnd
  match path.getLast? with
  | some key => pure (.nextTable path.dropLast key)
  | none => failure

/-- A line of a document, with nothing to say if it is empty or a comment. -/
def line : Scanner (Option Statement) :=
  (comment *> (newline <|> atEnd) *> pure none)
    <|> (newline *> pure none)
    <|> (some <$> (nextHeader <|> header <|> setting))

def lines : Scanner (List (Option Statement)) := do
  let _ ← optional (char '\ufeff')
  blanks
  many (line <* blanks)

def read? (text : List Char) : Option Members := do
  let statements ← lines.whole? text
  let document ← (statements.filterMap id).foldlM Document.state? Document.empty
  some document.members

end Parley.Toml
