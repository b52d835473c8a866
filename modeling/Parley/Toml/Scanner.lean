/-!
# Scanners

A scanner takes something from the front of a text, if the text begins with it. A choice of two
scanners tries the second from the place where the first one began.
-/

namespace Parley.Toml

abbrev Scanner :=
  StateT (List Char) Option

namespace Scanner

variable {α β : Type}

def takeWhile (accept : Char → Bool) : Scanner (List Char) := fun text =>
  some (text.takeWhile accept, text.dropWhile accept)

def takeSome (accept : Char → Bool) : Scanner (List Char) := do
  let found ← takeWhile accept
  if found = [] then failure else pure found

def satisfy (accept : Char → Bool) : Scanner Char := fun text =>
  match text with
  | c :: rest => if accept c then some (c, rest) else none
  | [] => none

def char (c : Char) : Scanner Char :=
  satisfy (· = c)

def word (letters : String) : Scanner Unit := fun text =>
  if letters.toList.isPrefixOf text then some ((), text.drop letters.length) else none

/-- See that a scanner would succeed, and take nothing. -/
def ahead (scanner : Scanner α) : Scanner Unit := fun text =>
  (scanner.run text).map fun _ => ((), text)

def atEnd : Scanner Unit := fun text =>
  if text = [] then some ((), []) else none

/-- What a scanner takes again and again, until it fails or takes nothing. -/
def repeated (scanner : Scanner α) (text : List Char) : List α × List Char :=
  match scanner.run text with
  | none => ([], text)
  | some (value, rest) =>
    if rest.length < text.length then
      let (values, rest) := repeated scanner rest
      (value :: values, rest)
    else ([], text)
termination_by text.length

def many (scanner : Scanner α) : Scanner (List α) := fun text =>
  some (repeated scanner text)

/-- At least one item, with separators between the items. -/
def sepBySome (item : Scanner α) (separator : Scanner β) : Scanner (List α) := do
  let first ← item
  let others ← many (separator *> item)
  pure (first :: others)

def sepBy (item : Scanner α) (separator : Scanner β) : Scanner (List α) :=
  sepBySome item separator <|> pure []

def whole? (scanner : Scanner α) (text : List Char) : Option α :=
  ((scanner <* atEnd).run text).map (·.1)

end Scanner

end Parley.Toml
