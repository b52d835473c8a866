import Parley.Json.Basic
import Parley.Json.Token

/-!
# Reading documents

Documents from tokens. The reader goes through the tokens once and keeps the containers that are
not yet closed on a stack, so that the depth of a document does not matter to it.
-/

namespace Parley.Json

/-- A container that waits for a value inside it: what it holds so far, last first. -/
inductive Frame
  | items (before : List Json)
  | member (before : List Member) (key : Option String)

/-- What has been read and what may come next. -/
inductive Reading
  | value (outer : List Frame)
  | firstItem (outer : List Frame)
  | nextItem (before : List Json) (outer : List Frame)
  | firstKey (outer : List Frame)
  | key (before : List Member) (outer : List Frame)
  | colon (before : List Member) (key : Option String) (outer : List Frame)
  | nextMember (before : List Member) (outer : List Frame)
  | whole (document : Json)

namespace Reading

/-- A value has been read: hand it to the container around it. -/
def put (json : Json) : List Frame → Reading
  | [] => whole json
  | .items before :: outer => nextItem (json :: before) outer
  | .member before name :: outer => nextMember ((name, json) :: before) outer

def begin? (outer : List Frame) : Token → Option Reading
  | .null => some (put .null outer)
  | .bool truth => some (put (.bool truth) outer)
  | .number numeral => some (put (.number numeral) outer)
  | .string text => some (put (.string text) outer)
  | .openArray => some (firstItem outer)
  | .openObject => some (firstKey outer)
  | _ => none

def next? : Reading → Token → Option Reading
  | value outer, token => begin? outer token
  | firstItem outer, .closeArray => some (put (.array []) outer)
  | firstItem outer, token => begin? (.items [] :: outer) token
  | nextItem before outer, .comma => some (value (.items before :: outer))
  | nextItem before outer, .closeArray => some (put (.array before.reverse) outer)
  | firstKey outer, .closeObject => some (put (.object []) outer)
  | firstKey outer, .string name => some (colon [] name outer)
  | key before outer, .string name => some (colon before name outer)
  | colon before name outer, .colon => some (value (.member before name :: outer))
  | nextMember before outer, .comma => some (key before outer)
  | nextMember before outer, .closeObject => some (put (.object before.reverse) outer)
  | _, _ => none

def whole? : Reading → Option Json
  | whole document => some document
  | _ => none

end Reading

def read? (text : List Char) : Option Json := do
  let tokens ← Token.ofText? text
  let reading ← tokens.foldlM Reading.next? (.value [])
  reading.whole?

end Parley.Json
