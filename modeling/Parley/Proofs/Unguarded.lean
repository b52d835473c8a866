import Parley.Proofs.Passes

/-!
# Nothing is missing from a pass

A pass that takes nothing about its indices for granted looks up slots and records by plain numbers,
and its second look at the responses of a record may meet one that has no line. In a build none of
this happens, whatever the records respond with.
-/

namespace Parley.Conversation

variable {records : Array Record}

/-- The loop with plain numbers for its indices. -/
structure Unguarded where
  slots : Array Slot
  stack : List Nat

namespace Unguarded

inductive Progress
  | ongoing (state : Unguarded)
  | finished (slots : Array Slot) (line : Line)

/-- The first response that is not built. There is no answer if a slot is missing. -/
def search? (size index : Nat) (slots : Array Slot) :
    List Nat → Option (Except BuildError (Option Nat))
  | [] => some (.ok none)
  | response :: rest =>
    if response < size then
      match slots[response]? with
      | some (.built _) => search? size index slots rest
      | some .underway => some (.error (.cyclicResponse response))
      | some .untouched => some (.ok (some response))
      | none => none
    else some (.error (.responseOutOfRange index response size))

def line? : Slot → Option Line
  | .built line => some line
  | _ => none

/-- The lines of the responses. There is no answer if a slot is missing or has no line. -/
def gather? (slots : Array Slot) (responses : List Nat) : Option (List Line) :=
  responses.mapM fun response => slots[response]?.bind line?

def put? (slots : Array Slot) (index : Nat) (slot : Slot) : Option (Array Slot) :=
  if h : index < slots.size then some (slots.set index slot) else none

/-- Put the line of the record on top into its slot, and go back to the record that waits. -/
def finish? (state : Unguarded) (index : Nat) (line : Line) : Option Progress := do
  let slots ← put? state.slots index (.built line)
  match state.stack.tail with
  | [] => some (.finished slots line)
  | stack => some (.ongoing ⟨slots, stack⟩)

/-- A pass that takes nothing for granted. There is no answer if the stack is empty, if an index is
out of bounds, or if a record is assembled before its responses are. -/
def pass? (records : Array Record) (state : Unguarded) :
    Option (Except BuildError Progress) := do
  let index ← state.stack.head?
  let record ← records[index]?
  match ← search? records.size index state.slots record.response with
  | .error e => some (.error e)
  | .ok (some response) =>
    let slots ← put? state.slots response .underway
    some (.ok (.ongoing ⟨slots, response :: state.stack⟩))
  | .ok none =>
    let lines ← gather? state.slots record.response
    match assemble index record lines with
    | .error e => some (.error e)
    | .ok line => (finish? state index line).map .ok

variable {size : Nat}

theorem getElem?_toArray (memo : Memo size) {response : Nat} (hinside : response < size) :
    memo.toArray[response]? = some (memo.get ⟨response, hinside⟩) :=
  Vector.getElem?_toArray.trans (Vector.getElem?_eq_getElem hinside)

/-- What a look finds, as far as the search goes. -/
def searched (index : Nat) : Outlook size → Except BuildError (Option Nat)
  | .outOfRange response => .error (.responseOutOfRange index response size)
  | .cyclic response => .error (.cyclicResponse response)
  | .unbuilt response => .ok (some response)
  | .ready _ => .ok none

theorem search?_eq (memo : Memo size) (index : Nat) (responses : List Nat) :
    search? size index memo.toArray responses = some (searched index (look memo responses)) := by
  induction responses with
  | nil => rfl
  | cons response rest ih =>
    rw [search?, look]
    by_cases hinside : response < size
    · rw [if_pos hinside, dif_pos hinside, getElem?_toArray memo hinside]
      change (match some memo[response] with
        | some (.built _) => search? size index memo.toArray rest
        | some .underway => some (.error (.cyclicResponse response))
        | some .untouched => some (.ok (some response))
        | none => none) = _
      cases hslot : memo[response] with
      | untouched | underway => rfl
      | built line =>
        simp only [ih]
        cases look memo rest <;> rfl
    · rw [if_neg hinside, dif_neg hinside]
      rfl

theorem gather?_eq {memo : Memo size} {responses : List Nat} {lines : List Line}
    (h : List.Forall₂ (Holds memo) responses lines) :
    gather? memo.toArray responses = some lines := by
  induction h with
  | nil => rfl
  | cons hfirst _ ih =>
    obtain ⟨hinside, hslot⟩ := hfirst
    rw [gather?] at ih ⊢
    rw [List.mapM_cons, getElem?_toArray memo hinside, hslot, ih]
    rfl

theorem put?_eq (memo : Memo size) (index : Fin size) (slot : Slot) :
    put? memo.toArray index slot = some (memo.set index slot index.isLt).toArray := by
  rw [put?, dif_pos (by simp)]
  rfl

end Unguarded

def Work.unguarded {size : Nat} (work : Work size) : Unguarded :=
  ⟨work.memo.toArray, work.stack.map Fin.val⟩

def Progress.unguarded {size : Nat} : Progress size → Unguarded.Progress
  | .ongoing work => .ongoing work.unguarded
  | .finished memo line => .finished memo.toArray line

theorem finish?_unguarded {size : Nat} (work : Work size) (line : Line) :
    Unguarded.finish? work.unguarded work.top line = some (work.finish line).unguarded := by
  rw [Unguarded.finish?]
  change (Unguarded.put? work.memo.toArray work.top (.built line)).bind _ = _
  rw [Unguarded.put?_eq, Work.finish, Work.unguarded, Work.stack]
  cases work.below <;> rfl

/-- All that a pass looks up is there, whatever the records respond with. -/
theorem pass?_unguarded (work : Work records.size) :
    Unguarded.pass? records work.unguarded = some ((pass records work).map Progress.unguarded) := by
  have hindex : work.unguarded.stack.head? = some work.top.val := rfl
  have hrecord : records[work.top.val]? = some (recordAt records work.top) :=
    Array.getElem?_eq_getElem work.top.isLt
  simp only [Unguarded.pass?, hindex, hrecord, Option.bind_eq_bind, Option.bind_some]
  change (Unguarded.search? records.size work.top work.memo.toArray _).bind _ = _
  rw [Unguarded.search?_eq, pass]
  cases hlook : look work.memo (recordAt records work.top).response with
  | outOfRange | cyclic => rfl
  | unbuilt response =>
    change (Unguarded.put? work.memo.toArray response .underway).bind _ = _
    rw [Unguarded.put?_eq]
    rfl
  | ready lines =>
    change (Unguarded.gather? work.memo.toArray _).bind _ = _
    rw [Unguarded.gather?_eq (holds_of_look_ready hlook)]
    simp only [Option.bind_some]
    cases assemble work.top (recordAt records work.top) lines with
    | error => rfl
    | ok line =>
      simp only [finish?_unguarded]
      rfl

/-- Before every pass of a build, whatever the records are, the stack and the memo are in order, and
the pass finds everything that it looks up. Whenever the line of a record is asked for, no record is
under way. -/
theorem passes_are_orderly (records : Array Record) :
    (∀ work ∈ buildPasses records, work.Orderly records ∧
        Unguarded.pass? records work.unguarded =
          some ((pass records work).map Progress.unguarded)) ∧
      ∀ visit ∈ buildVisits records, ∀ index : Fin records.size,
        visit.memo.get index ≠ .underway := by
  constructor
  · intro work hwork
    obtain ⟨root, hsound, hlinked⟩ := exists_sound_of_mem_buildPasses hwork
    exact ⟨hsound.orderly hlinked, pass?_unguarded work⟩
  · intro visit hvisit
    exact (atRest_of_mem_buildVisits hvisit).quiet.idle

end Parley.Conversation
