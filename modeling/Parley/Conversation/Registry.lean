import Parley.Line
import Std.Data.TreeMap

/-!
# The registry of conversations

The registry keeps, under the name of each NPC that has a conversation, the lines that open it. A
conversation inserted under a name replaces the one before it.
-/

namespace Parley

structure Registry where
  conversations : Std.TreeMap String (List Line)

namespace Registry

def empty : Registry :=
  ⟨∅⟩

def insert (registry : Registry) (npc : String) (entries : List Line) : Registry :=
  ⟨registry.conversations.insert npc entries⟩

/-- The lines that open the conversation of an NPC, none if it has no conversation. -/
def entries (registry : Registry) (npc : String) : List Line :=
  (registry.conversations[npc]?).getD []

def has (registry : Registry) (npc : String) : Bool :=
  registry.conversations.contains npc

def size (registry : Registry) : Nat :=
  registry.conversations.size

def toList (registry : Registry) : List (String × List Line) :=
  registry.conversations.toList

@[simp]
theorem entries_empty (npc : String) : empty.entries npc = [] := by
  simp [empty, entries]

theorem entries_insert (registry : Registry) (name : String) (entries : List Line) (npc : String) :
    (registry.insert name entries).entries npc
      = if name = npc then entries else registry.entries npc := by
  by_cases h : name = npc <;> simp [insert, Registry.entries, Std.TreeMap.getElem?_insert, h]

end Registry

end Parley
