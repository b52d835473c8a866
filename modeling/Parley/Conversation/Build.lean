import Parley.Conversation.Assemble

/-!
# Building a conversation

Building a conversation from its records. The responses of a record are built before the record
itself, depth first and from left to right. The records under way stand on a stack; a memo with one
slot a record keeps what is finished, so that a line reached along several paths is built once, and
marks what is under way, so that a record that leads back to itself is found. The memo is kept from
one entry to the next.
-/

namespace Parley.Conversation

abbrev recordAt (records : Array Record) (index : Fin records.size) : Record :=
  records[index]

inductive Slot
  | untouched
  | underway
  | built (line : Line)

namespace Slot

def isUntouched : Slot → Bool
  | untouched => true
  | _ => false

@[simp] theorem isUntouched_underway : underway.isUntouched = false := rfl

@[simp] theorem isUntouched_built (line : Line) : (built line).isUntouched = false := rfl

end Slot

abbrev Memo (size : Nat) :=
  Vector Slot size

def blank (size : Nat) : Memo size :=
  Vector.replicate size .untouched

def untouched {size : Nat} (memo : Memo size) : Nat :=
  memo.countP Slot.isUntouched

/-- What a look at the responses of a record finds: the first that stands in the way of the record,
or the lines of all of them. -/
inductive Outlook (size : Nat)
  | outOfRange (response : Nat)
  | cyclic (response : Nat)
  | unbuilt (response : Fin size)
  | ready (lines : List Line)

def look {size : Nat} (memo : Memo size) : List Nat → Outlook size
  | [] => .ready []
  | response :: rest =>
    if h : response < size then
      match memo[response] with
      | .underway => .cyclic response
      | .untouched => .unbuilt ⟨response, h⟩
      | .built line =>
        match look memo rest with
        | .ready lines => .ready (line :: lines)
        | blocked => blocked
    else .outOfRange response

/-- The records under way: the innermost, and below it those that wait for it. -/
structure Work (size : Nat) where
  memo : Memo size
  top : Fin size
  below : List (Fin size)

/-- Where a pass over the innermost record leads: to work that goes on, or to the line of the
outermost record. -/
inductive Progress (size : Nat)
  | ongoing (work : Work size)
  | finished (memo : Memo size) (line : Line)

/-- Start on a record, below which `below` waits. -/
def Work.start {size : Nat} (memo : Memo size) (index : Fin size) (below : List (Fin size)) :
    Work size :=
  ⟨memo.set index .underway, index, below⟩

/-- Put the line of the innermost record into the memo, and go back to the record that waits. -/
def Work.finish {size : Nat} (work : Work size) (line : Line) : Progress size :=
  let memo := work.memo.set work.top (.built line)
  match work.below with
  | [] => .finished memo line
  | next :: below => .ongoing ⟨memo, next, below⟩

def pass (records : Array Record) (work : Work records.size) :
    Except BuildError (Progress records.size) :=
  let record := recordAt records work.top
  match look work.memo record.response with
  | .outOfRange response => .error (.responseOutOfRange work.top response records.size)
  | .cyclic response => .error (.cyclicResponse response)
  | .unbuilt response => .ok (.ongoing (.start work.memo response (work.top :: work.below)))
  | .ready lines => (assemble work.top record lines).map work.finish

theorem look_unbuilt {size : Nat} {memo : Memo size} {responses : List Nat} {index : Fin size}
    (h : look memo responses = .unbuilt index) : memo[index] = .untouched := by
  induction responses with
  | nil => simp [look] at h
  | cons response rest ih =>
    simp only [look] at h
    split at h
    · split at h
      · simp at h
      · next hslot => simpa [← (Outlook.unbuilt.inj h)] using hslot
      · split at h
        · simp at h
        · exact ih h
    · simp at h

theorem untouched_set_underway {size : Nat} {memo : Memo size} {index : Fin size}
    (h : memo[index] = .untouched) :
    untouched (memo.set index .underway) + 1 = untouched memo := by
  have hheld : Slot.isUntouched memo[index.val] = true := by
    simpa [Slot.isUntouched] using congrArg Slot.isUntouched h
  have hpositive : 0 < Vector.countP Slot.isUntouched memo :=
    Vector.countP_pos_iff.mpr ⟨_, Vector.getElem_mem _, hheld⟩
  simp [untouched, Vector.countP_set, hheld]
  omega

theorem untouched_set_built_le {size : Nat} (memo : Memo size) (index : Fin size) (line : Line) :
    untouched (memo.set index (.built line)) ≤ untouched memo := by
  simp [untouched, Vector.countP_set]

/-- What passes use up: every record still to be taken up will be taken up and finished, and every
record that waits will be finished. -/
def Work.weight {size : Nat} (work : Work size) : Nat :=
  2 * untouched work.memo + work.below.length

theorem weight_finish {size : Nat} {work next : Work size} {line : Line}
    (h : work.finish line = .ongoing next) : next.weight < work.weight := by
  simp only [Work.finish] at h
  split at h
  · simp at h
  · next hwaiting =>
    obtain rfl := Progress.ongoing.inj h
    have hless := untouched_set_built_le work.memo work.top line
    simp only [Work.weight, hwaiting, List.length_cons]
    omega

theorem weight_pass {records : Array Record} {work next : Work records.size}
    (h : pass records work = .ok (.ongoing next)) : next.weight < work.weight := by
  simp only [pass] at h
  split at h
  · simp at h
  · simp at h
  · next response hlook =>
    obtain rfl := Progress.ongoing.inj (Except.ok.inj h)
    have hless := untouched_set_underway (look_unbuilt hlook)
    simp only [Work.weight, Work.start, List.length_cons]
    omega
  · simp only [Except.map] at h
    split at h
    · simp at h
    · exact weight_finish (Except.ok.inj h)

/-- The line of the outermost record under way, after as many passes as it takes. -/
def complete (records : Array Record) (work : Work records.size) :
    Except BuildError (Memo records.size × Line) :=
  match _h : pass records work with
  | .error e => .error e
  | .ok (.finished memo line) => .ok (memo, line)
  | .ok (.ongoing next) => complete records next
termination_by work.weight
decreasing_by exact weight_pass _h

/-- The line of a record, taken from the memo if it is there. -/
def lineAt (records : Array Record) (memo : Memo records.size) (index : Fin records.size) :
    Except BuildError (Memo records.size × Line) :=
  match memo[index] with
  | .built line => .ok (memo, line)
  | .underway => .error (.cyclicResponse index)
  | .untouched => complete records (.start memo index [])

def entries (records : Array Record) : List (Fin records.size) :=
  (List.finRange records.size).filter fun index => (recordAt records index).isEntry

/-- The lines of several records, with the memo handed on from each to the next. -/
def linesAt (records : Array Record) (memo : Memo records.size) :
    List (Fin records.size) → Except BuildError (List Line)
  | [] => .ok []
  | index :: rest => do
    let (memo, line) ← lineAt records memo index
    let lines ← linesAt records memo rest
    .ok (line :: lines)

/-- The lines that open the conversation, in the order of their records. -/
def build (records : Array Record) : Except BuildError (List Line) :=
  linesAt records (blank records.size) (entries records)

end Parley.Conversation
