/-!
# Messages

The messages shown to the player, first in, first out.
-/

namespace Parley

structure Messages where
  /-- The messages not yet taken, oldest first. -/
  waiting : Array String

namespace Messages

def empty : Messages :=
  ⟨#[]⟩

def offer (messages : Messages) (message : String) : Messages :=
  ⟨messages.waiting.push message⟩

def offerAll (messages : Messages) (more : List String) : Messages :=
  more.foldl offer messages

/-- Take the oldest message. -/
def poll (messages : Messages) : Option String × Messages :=
  (messages.waiting[0]?, ⟨messages.waiting.extract 1⟩)

/-- Take every message, oldest first. -/
def drain (messages : Messages) : List String × Messages :=
  (messages.waiting.toList, empty)

def size (messages : Messages) : Nat :=
  messages.waiting.size

def isEmpty (messages : Messages) : Bool :=
  messages.waiting.isEmpty

def toList (messages : Messages) : List String :=
  messages.waiting.toList

@[simp]
theorem toList_offer (messages : Messages) (message : String) :
    (messages.offer message).toList = messages.toList ++ [message] := by
  simp [offer, toList]

@[simp]
theorem toList_offerAll (messages : Messages) (more : List String) :
    (messages.offerAll more).toList = messages.toList ++ more := by
  induction more generalizing messages with
  | nil => simp [offerAll]
  | cons message rest ih =>
    have hrest := ih (messages.offer message)
    simp_all [offerAll]

@[simp]
theorem poll_fst (messages : Messages) : messages.poll.1 = messages.toList.head? := by
  simp [poll, toList, List.head?_eq_getElem?]

@[simp]
theorem toList_poll_snd (messages : Messages) : messages.poll.2.toList = messages.toList.tail := by
  cases messages with
  | mk waiting => cases waiting with
    | mk list => cases list <;> simp [poll, toList]

@[simp]
theorem drain_fst (messages : Messages) : messages.drain.1 = messages.toList := rfl

@[simp]
theorem toList_drain_snd (messages : Messages) : messages.drain.2.toList = [] := rfl

end Messages

end Parley
