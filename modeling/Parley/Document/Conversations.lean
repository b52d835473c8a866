import Parley.Conversation.Build
import Parley.Conversation.Registry
import Parley.Document.Lines
import Parley.Json.Settle

/-!
# Conversations in documents

The document that holds the conversations of all NPCs: an object whose member `npcs` has a member
for each NPC, in which `conversations` holds the records. An NPC without records, and one whose
records make no conversation, is left out.
-/

namespace Parley

inductive LoadError
  | unreadable
  | malformed
  | noNpcs
deriving DecidableEq

/-- The wording of an error, where it has one of its own. -/
def LoadError.message? : LoadError → Option String
  | noNpcs => some "data source has no `npcs` object"
  | unreadable | malformed => none

namespace Registry

/-- The opening lines that an NPC's part of the document gives, if it gives a conversation. -/
def conversation? (npc : Json) : Option (List Line) :=
  (npc.get? "conversations").bind fun records =>
    (Record.listOfJson? records).bind fun records => (Conversation.build records).toOption

def addMember (registry : Registry) : Json.Member → Registry
  | (some name, npc) =>
    match conversation? npc with
    | some entries => registry.insert name entries
    | none => registry
  | (none, _) => registry

def ofJson (document : Json) : Except LoadError Registry :=
  match document.get? "npcs" with
  | some (.object npcs) => .ok (npcs.foldl addMember empty)
  | _ => .error .noNpcs

def ofText (text : List Char) : Except LoadError Registry :=
  match Json.read? text >>= Json.settle? Json.depthLimit with
  | some document => ofJson document
  | none => .error .malformed

end Registry

end Parley
