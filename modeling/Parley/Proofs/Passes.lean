import Parley.Proofs.Memoization

/-!
# The passes of a build

What holds before every pass that a build makes, whichever entry it is at. The records under way are
those on the stack, each a response of the one below it, and the responses of a finished record are
finished. Whenever the line of a record is asked for, no record is under way.
-/

namespace Parley.Conversation

variable {records : Array Record}

/-- The work that is passed over, from this work on until there is a line or an error. -/
def passesFrom (records : Array Record) (work : Work records.size) : List (Work records.size) :=
  work ::
    match _h : pass records work with
    | .ok (.ongoing next) => passesFrom records next
    | _ => []
termination_by work.weight
decreasing_by exact weight_pass _h

theorem passesFrom_of_ongoing {work next : Work records.size}
    (h : pass records work = .ok (.ongoing next)) :
    passesFrom records work = work :: passesFrom records next := by
  rw [passesFrom, h]

theorem passesFrom_of_last {work : Work records.size}
    (h : ∀ next, pass records work ≠ .ok (.ongoing next)) : passesFrom records work = [work] := by
  rw [passesFrom]
  split
  · next next hpass => exact absurd hpass (h next)
  · rfl

theorem lineAt_eq (memo : Memo records.size) (index : Fin records.size) :
    lineAt records memo index =
      match memo.get index with
      | .built line => .ok (memo, line)
      | .underway => .error (.cyclicResponse index)
      | .untouched => complete records (.start memo index []) := rfl

/-- The line of a record is asked for, with what is in the memo then. -/
structure Visit (size : Nat) where
  memo : Memo size
  root : Fin size

def visits (records : Array Record) (memo : Memo records.size) :
    List (Fin records.size) → List (Visit records.size)
  | [] => []
  | root :: rest =>
    ⟨memo, root⟩ ::
      match lineAt records memo root with
      | .ok (after, _) => visits records after rest
      | .error _ => []

/-- The work that a visit starts, unless the record is taken from the memo. -/
def Visit.work? {size : Nat} (visit : Visit size) : Option (Work size) :=
  match visit.memo.get visit.root with
  | .untouched => some (.start visit.memo visit.root [])
  | _ => none

def Visit.passes (records : Array Record) (visit : Visit records.size) :
    List (Work records.size) :=
  visit.work?.toList.flatMap (passesFrom records)

def buildVisits (records : Array Record) : List (Visit records.size) :=
  visits records (blank records.size) (entries records)

def buildPasses (records : Array Record) : List (Work records.size) :=
  (buildVisits records).flatMap (Visit.passes records)

/-- The records under way, the innermost first. -/
def Work.stack {size : Nat} (work : Work size) : List (Fin size) :=
  work.top :: work.below

/-- The line of a response stands in the memo. -/
def Holds {size : Nat} (memo : Memo size) (response : Nat) (line : Line) : Prop :=
  ∃ hinside : response < size, memo.get ⟨response, hinside⟩ = .built line

/-- What a pass finds when it looks at the responses of the innermost record. -/
abbrev Work.outlook (records : Array Record) (work : Work records.size) : Outlook records.size :=
  look work.memo (recordAt records work.top).response

/-- What a pass comes to, by what it finds. -/
inductive Work.Outcome (records : Array Record) (work : Work records.size) :
    Except BuildError (Progress records.size) → Prop
  | refused {e : BuildError} :
    (∀ response, work.outlook records ≠ .unbuilt response) →
      (∀ lines, work.outlook records ≠ .ready lines) → Outcome records work (.error e)
  | started {response : Fin records.size} :
    work.outlook records = .unbuilt response →
      Outcome records work (.ok (.ongoing (.start work.memo response work.stack)))
  | unreadable {lines : List Line} {e : BuildError} :
    work.outlook records = .ready lines →
      assemble work.top (recordAt records work.top) lines = .error e →
      Outcome records work (.error e)
  | resumed {lines : List Line} {line : Line} {next : Fin records.size}
      {below : List (Fin records.size)} :
    work.outlook records = .ready lines →
      assemble work.top (recordAt records work.top) lines = .ok line →
      work.below = next :: below →
      Outcome records work
        (.ok (.ongoing ⟨work.memo.set work.top (.built line) work.top.isLt, next, below⟩))
  | finished {lines : List Line} {line : Line} :
    work.outlook records = .ready lines →
      assemble work.top (recordAt records work.top) lines = .ok line → work.below = [] →
      Outcome records work
        (.ok (.finished (work.memo.set work.top (.built line) work.top.isLt) line))

theorem outcome_pass (work : Work records.size) : work.Outcome records (pass records work) := by
  rw [pass]
  cases hlook : look work.memo (recordAt records work.top).response with
  | outOfRange | cyclic =>
    refine .refused (fun _ h => ?_) (fun _ h => ?_)
    · cases hlook.symm.trans h
    · cases hlook.symm.trans h
  | unbuilt => exact .started hlook
  | ready lines =>
    cases hline : assemble work.top (recordAt records work.top) lines with
    | error =>
      simp only [hline, Except.map]
      exact .unreadable hlook hline
    | ok line =>
      simp only [hline, Except.map, Work.finish]
      cases hbelow : work.below with
      | nil => exact .finished hlook hline hbelow
      | cons => exact .resumed hlook hline hbelow

theorem mem_of_look_unbuilt {size : Nat} {memo : Memo size} {responses : List Nat}
    {response : Fin size} (h : look memo responses = .unbuilt response) :
    ↑response ∈ responses := by
  induction responses with
  | nil => simp [look] at h
  | cons first rest ih =>
    rw [look] at h
    split at h
    · split at h
      · cases h
      · obtain rfl := Outlook.unbuilt.inj h
        exact List.mem_cons_self
      · split at h
        · cases h
        · exact List.mem_cons_of_mem first (ih h)
    · cases h

theorem holds_of_look_ready {size : Nat} {memo : Memo size} {responses : List Nat}
    {lines : List Line} (h : look memo responses = .ready lines) :
    List.Forall₂ (Holds memo) responses lines := by
  induction responses generalizing lines with
  | nil =>
    obtain rfl := Outlook.ready.inj h
    exact .nil
  | cons response rest ih =>
    rw [look] at h
    split at h
    · next hinside =>
      split at h
      · cases h
      · cases h
      · next line hslot =>
        split at h
        · next hrest =>
          obtain rfl := Outlook.ready.inj h
          exact .cons ⟨hinside, hslot⟩ (ih hrest)
        · next hblocked => exact absurd h (hblocked lines)
    · cases h

/-- The lines of the responses of every finished record stand in the memo. -/
def Closed (records : Array Record) (memo : Memo records.size) : Prop :=
  ∀ index line, memo.get index = .built line →
    List.Forall₂ (Holds memo) (recordAt records index).response line.responses

theorem Holds.set {size : Nat} {memo : Memo size} {response : Nat} {line : Line}
    (h : Holds memo response line) {index : Fin size}
    (hunfinished : ∀ line, memo.get index ≠ .built line) (slot : Slot) :
    Holds (memo.set index slot index.isLt) response line := by
  obtain ⟨hinside, hslot⟩ := h
  have hne : ⟨response, hinside⟩ ≠ index := by
    rintro rfl
    exact hunfinished line hslot
  exact ⟨hinside, (get_set_of_ne memo slot hne).trans hslot⟩

/-- A record that is not finished may be marked, or finished once its responses are. -/
theorem Closed.set {memo : Memo records.size} (h : Closed records memo) {index : Fin records.size}
    (hunfinished : ∀ line, memo.get index ≠ .built line) (slot : Slot)
    (hslot : ∀ line, slot = .built line →
      List.Forall₂ (Holds memo) (recordAt records index).response line.responses) :
    Closed records (memo.set index slot index.isLt) := by
  intro other line hother
  by_cases heq : other = index
  · subst heq
    rw [get_set_self] at hother
    exact (hslot line hother).imp fun _ _ hheld => hheld.set hunfinished slot
  · rw [get_set_of_ne memo slot heq] at hother
    exact (h other line hother).imp fun _ _ hheld => hheld.set hunfinished slot

theorem closed_blank (records : Array Record) : Closed records (blank records.size) := by
  intro index line hslot
  have hblank : (blank records.size).get index = .untouched := Vector.getElem_replicate index.isLt
  rw [hblank] at hslot
  cases hslot

/-- What else holds before every pass, beside `Work.Sound`. -/
structure Work.Linked (records : Array Record) (work : Work records.size) : Prop where
  chain : work.stack.IsChain fun upper lower => Links records lower upper
  closed : Closed records work.memo

theorem linked_start {memo : Memo records.size} (h : Closed records memo) {index : Fin records.size}
    (huntouched : memo.get index = .untouched) {below : List (Fin records.size)}
    (hbelow : (index :: below).IsChain fun upper lower => Links records lower upper) :
    (Work.start memo index below).Linked records := by
  refine ⟨hbelow, h.set ?_ _ ?_⟩
  · simp [huntouched]
  · intro line hslot
    cases hslot

namespace Work.Sound

variable {root : Fin records.size} {work : Work records.size}

theorem top_unfinished (h : work.Sound records root) (line : Line) :
    work.memo.get work.top ≠ .built line := by
  simp [(h.underway work.top).mpr List.mem_cons_self]

theorem closed_finish (h : work.Sound records root) (hlinked : work.Linked records)
    {lines : List Line} (hready : work.outlook records = .ready lines) {line : Line}
    (hline : assemble work.top (recordAt records work.top) lines = .ok line) :
    Closed records (work.memo.set work.top (.built line) work.top.isLt) := by
  refine hlinked.closed.set h.top_unfinished _ ?_
  rintro _ ⟨rfl⟩
  obtain ⟨-, rfl, -⟩ := assemble_eq_ok_iff.mp hline
  exact holds_of_look_ready hready

theorem linked_pass (h : work.Sound records root) (hlinked : work.Linked records)
    {next : Work records.size} (hpass : pass records work = .ok (.ongoing next)) :
    next.Linked records := by
  have houtcome := outcome_pass work
  rw [hpass] at houtcome
  cases houtcome with
  | started hlook =>
    refine linked_start hlinked.closed (look_unbuilt hlook) ?_
    exact .cons_cons (mem_of_look_unbuilt hlook) hlinked.chain
  | resumed hready hline hbelow =>
    refine ⟨?_, h.closed_finish hlinked hready hline⟩
    have hchain := hlinked.chain
    rw [Work.stack, hbelow] at hchain
    exact hchain.of_cons

theorem ongoing (h : work.Sound records root) {next : Work records.size}
    (hpass : pass records work = .ok (.ongoing next)) : next.Sound records root := by
  have hmeets := meets_pass h
  rw [hpass] at hmeets
  cases hmeets with
  | ongoing hnext => exact hnext

theorem forall_passesFrom (h : work.Sound records root) (hlinked : work.Linked records) :
    ∀ other ∈ passesFrom records work, other.Sound records root ∧ other.Linked records := by
  induction work using complete.induct records with
  | case1 work _ hpass | case2 work _ _ hpass =>
    rw [passesFrom_of_last (by simp [hpass])]
    exact List.forall_mem_singleton.mpr ⟨h, hlinked⟩
  | case3 work next hpass ih =>
    rw [passesFrom_of_ongoing hpass]
    have hnext := ih (h.ongoing hpass) (h.linked_pass hlinked hpass)
    exact List.forall_mem_cons.mpr ⟨⟨h, hlinked⟩, hnext⟩

theorem closed_complete (h : work.Sound records root) (hlinked : work.Linked records)
    {after : Memo records.size} {line : Line} (hok : complete records work = .ok (after, line)) :
    Closed records after := by
  fun_induction complete records work with
  | case1 => cases hok
  | case2 work memo last hpass =>
    obtain ⟨rfl, rfl⟩ := Prod.mk.inj (Except.ok.inj hok)
    have houtcome := outcome_pass work
    rw [hpass] at houtcome
    cases houtcome with
    | finished hready hline => exact h.closed_finish hlinked hready hline
  | case3 work next hpass ih => exact ih (h.ongoing hpass) (h.linked_pass hlinked hpass) hok

end Work.Sound

/-- What holds when the line of a record is asked for. -/
structure AtRest (records : Array Record) (memo : Memo records.size) : Prop where
  quiet : Quiet records memo
  closed : Closed records memo

namespace AtRest

variable {memo : Memo records.size}

theorem sound_start (h : AtRest records memo) {root : Fin records.size}
    (huntouched : memo.get root = .untouched) :
    (Work.start memo root []).Sound records root ∧ (Work.start memo root []).Linked records :=
  ⟨Conversation.sound_start h.quiet huntouched, linked_start h.closed huntouched (.singleton root)⟩

theorem of_lineAt (h : AtRest records memo) {root : Fin records.size} {after : Memo records.size}
    {line : Line} (hok : lineAt records memo root = .ok (after, line)) : AtRest records after := by
  have hagrees := agrees_lineAt h.quiet root
  rw [hok] at hagrees
  cases hagrees with
  | ok hquiet =>
    refine ⟨hquiet, ?_⟩
    rw [lineAt_eq] at hok
    split at hok
    · obtain ⟨rfl, -⟩ := Prod.mk.inj (Except.ok.inj hok)
      exact h.closed
    · cases hok
    · next huntouched =>
      obtain ⟨hsound, hlinked⟩ := h.sound_start huntouched
      exact hsound.closed_complete hlinked hok

theorem forall_visits (h : AtRest records memo) (roots : List (Fin records.size)) :
    ∀ visit ∈ visits records memo roots, AtRest records visit.memo := by
  induction roots generalizing memo with
  | nil => exact List.forall_mem_nil _
  | cons root rest ih =>
    rw [visits]
    refine List.forall_mem_cons.mpr ⟨h, ?_⟩
    split
    · next after line hok => exact ih (h.of_lineAt hok)
    · exact List.forall_mem_nil _

end AtRest

theorem atRest_blank (records : Array Record) : AtRest records (blank records.size) :=
  ⟨quiet_blank records, closed_blank records⟩

theorem atRest_of_mem_buildVisits {visit : Visit records.size}
    (h : visit ∈ buildVisits records) : AtRest records visit.memo :=
  (atRest_blank records).forall_visits (entries records) visit h

theorem Visit.work?_eq_some_iff {size : Nat} {visit : Visit size} {work : Work size} :
    visit.work? = some work ↔
      visit.memo.get visit.root = .untouched ∧ work = .start visit.memo visit.root [] := by
  rw [Visit.work?]
  split
  · next huntouched => simp [huntouched, eq_comm]
  · next hother => exact ⟨nofun, fun h => absurd h.1 hother⟩

theorem exists_sound_of_mem_buildPasses {work : Work records.size}
    (h : work ∈ buildPasses records) :
    ∃ root, work.Sound records root ∧ work.Linked records := by
  obtain ⟨visit, hvisit, hpasses⟩ := List.mem_flatMap.mp h
  obtain ⟨first, hfirst, hwork⟩ := List.mem_flatMap.mp hpasses
  obtain ⟨huntouched, rfl⟩ := Visit.work?_eq_some_iff.mp (Option.mem_toList.mp hfirst)
  obtain ⟨hsound, hlinked⟩ := (atRest_of_mem_buildVisits hvisit).sound_start huntouched
  exact ⟨visit.root, hsound.forall_passesFrom hlinked work hwork⟩

/-- The stack and the memo before a pass. -/
structure Work.Orderly (records : Array Record) (work : Work records.size) : Prop where
  ne_nil : work.stack ≠ []
  nodup : work.stack.Nodup
  underway : ∀ index, work.memo.get index = .underway ↔ index ∈ work.stack
  chain : work.stack.IsChain fun upper lower => Links records lower upper
  built : ∀ index line, work.memo.get index = .built line →
    resolve records index [] List.not_mem_nil = .ok line ∧
      List.Forall₂ (Holds work.memo) (recordAt records index).response line.responses

theorem Work.Sound.orderly {root : Fin records.size} {work : Work records.size}
    (h : work.Sound records root) (hlinked : work.Linked records) : work.Orderly records where
  ne_nil := List.cons_ne_nil _ _
  nodup := h.nodup
  underway := h.underway
  chain := hlinked.chain
  built := fun index line hslot =>
    ⟨h.settled index line hslot [] (open_nil _) _, hlinked.closed index line hslot⟩

end Parley.Conversation
