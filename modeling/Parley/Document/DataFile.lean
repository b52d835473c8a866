import Parley.Document.Conversations

/-!
# The data file

The file that holds the conversations, and the registry loaded from it.
-/

namespace Parley

inductive DataFile
  | absent
  | directory
  | file (bytes : List UInt8)

namespace DataFile

/-- The text of the file, if there is a file and it is UTF-8. -/
def text? : DataFile → Option (List Char)
  | file bytes => (ByteArray.mk bytes.toArray).utf8Decode?.map Array.toList
  | _ => none

end DataFile

namespace Registry

def tryLoad (file : DataFile) : Except LoadError Registry :=
  match file.text? with
  | some text => ofText text
  | none => .error .unreadable

/-- The registry of the file, empty if the file gives none. -/
def load (file : DataFile) : Registry :=
  match tryLoad file with
  | .ok registry => registry
  | .error _ => empty

end Registry

end Parley
