import Parley.Conversation.Build
import Parley.Proofs.Resolution

/-!
# The memo changes nothing

The loop over a stack and a memo gives each record the line, or the error, that plain recursion
gives it. Every record above the bottom of the stack is there because plain recursion would now be
resolving it, so an error at the top is the error of the whole; and a finished record cannot lead to
one under way, so its line does not depend on the path to it.
-/

namespace Parley.Conversation

variable {records : Array Record}

/-- No record on the path is finished. -/
def Open {size : Nat} (memo : Memo size) (path : List (Fin size)) : Prop :=
  ∀ index ∈ path, ∀ line, memo.get index ≠ .built line

theorem open_nil {size : Nat} (memo : Memo size) : Open memo [] :=
  fun _ hmem => absurd hmem List.not_mem_nil

/-- A finished record has the line that plain recursion gives it, whatever unfinished records lead
to it. -/
def Settled (records : Array Record) (memo : Memo records.size) : Prop :=
  ∀ index line, memo.get index = .built line → ∀ path, Open memo path →
    ∀ hfresh : index ∉ path, resolve records index path hfresh = .ok line

theorem Settled.finds {memo : Memo records.size} (h : Settled records memo)
    {path : List (Fin records.size)} (hopen : Open memo path) {response : Nat}
    (hinside : response < records.size) {line : Line} (hslot : memo[response] = .built line) :
    Finds records path response line := by
  have hfresh : ⟨response, hinside⟩ ∉ path := fun hmem => hopen _ hmem line hslot
  exact ⟨hinside, hfresh, h ⟨response, hinside⟩ line hslot path hopen hfresh⟩

/-- What plain recursion makes of the responses that a look has been taken at. -/
def Foresees (records : Array Record) (index : Fin records.size) (path : List (Fin records.size))
    (responses : List Nat) : Outlook records.size → Prop
  | .outOfRange response =>
    resolveAll records index path responses
      = .error (.responseOutOfRange index response records.size)
  | .cyclic response =>
    ∀ hinside, ⟨response, hinside⟩ ∈ path →
      resolveAll records index path responses = .error (.cyclicResponse response)
  | .unbuilt response =>
    ∀ hfresh e, resolve records response path hfresh = .error e →
      resolveAll records index path responses = .error e
  | .ready lines => resolveAll records index path responses = .ok lines

theorem foresees_look {memo : Memo records.size} {path : List (Fin records.size)}
    (hsettled : Settled records memo) (hopen : Open memo path)
    (index : Fin records.size) (responses : List Nat) :
    Foresees records index path responses (look memo responses) := by
  induction responses with
  | nil => simp [look, Foresees, resolveAll]
  | cons response rest ih =>
    rw [look]
    split
    · next hinside =>
      split
      · intro _ hmem
        rw [resolveAll, dif_pos hinside, dif_neg (not_not_intro hmem)]
      · intro hfresh e herror
        rw [resolveAll, dif_pos hinside, dif_pos hfresh, herror]
        rfl
      · next line hslot =>
        have hcons : resolveAll records index path (response :: rest) =
            (resolveAll records index path rest).map (line :: ·) :=
          resolveAll_cons_of_finds (hsettled.finds hopen hinside hslot)
        cases hlook : look memo rest with
        | outOfRange _ | ready _ =>
          simp only [hlook, Foresees] at ih ⊢
          rw [hcons, ih]
          rfl
        | cyclic _ =>
          simp only [hlook, Foresees] at ih ⊢
          intro hnext hmem
          rw [hcons, ih hnext hmem]
          rfl
        | unbuilt _ =>
          simp only [hlook, Foresees] at ih ⊢
          intro hfresh e herror
          rw [hcons, ih hfresh e herror]
          rfl
    · next houtside => rw [Foresees, resolveAll, dif_neg houtside]

theorem look_cyclic {size : Nat} {memo : Memo size} {responses : List Nat} {response : Nat}
    (h : look memo responses = .cyclic response) :
    ∃ hinside : response < size, memo[response] = .underway := by
  induction responses with
  | nil => simp [look] at h
  | cons first rest ih =>
    rw [look] at h
    split at h
    · next hinside =>
      split at h
      · next hslot =>
        obtain rfl := Outlook.cyclic.inj h
        exact ⟨hinside, hslot⟩
      · cases h
      · split at h
        · cases h
        · exact ih h
    · cases h

theorem get_set_of_ne {size : Nat} (memo : Memo size) {index other : Fin size} (slot : Slot)
    (h : other ≠ index) : (memo.set index slot index.isLt).get other = memo.get other := by
  have hval : index.val ≠ other.val := fun heq => h (Fin.ext heq.symm)
  exact Vector.getElem_set_ne index.isLt other.isLt hval

theorem get_set_self {size : Nat} (memo : Memo size) (index : Fin size) (slot : Slot) :
    (memo.set index slot index.isLt).get index = slot :=
  Vector.getElem_set_self index.isLt

/-- A record on a path that is open after a record is finished was open before. -/
theorem Open.of_set_built {size : Nat} {memo : Memo size} {index : Fin size} {line : Line}
    {path : List (Fin size)} (h : Open (memo.set index (.built line) index.isLt) path) :
    Open memo path := by
  intro other hmem l hslot
  by_cases heq : other = index
  · have hbuilt := get_set_self memo index (.built line)
    exact h other hmem line (heq ▸ hbuilt)
  · have hkept := get_set_of_ne memo (.built line) heq
    exact h other hmem l (hkept.trans hslot)

theorem Settled.set_underway {memo : Memo records.size} (h : Settled records memo)
    {index : Fin records.size} (huntouched : memo.get index = .untouched) :
    Settled records (memo.set index .underway index.isLt) := by
  intro other line hslot path hopen hfresh
  have hne : other ≠ index := by
    rintro rfl
    rw [get_set_self] at hslot
    cases hslot
  rw [get_set_of_ne memo _ hne] at hslot
  refine h other line hslot path (fun next hmem l hbuilt => ?_) hfresh
  by_cases heq : next = index
  · rw [heq, huntouched] at hbuilt
    cases hbuilt
  · exact hopen next hmem l ((get_set_of_ne memo _ heq).trans hbuilt)

/-- A record whose responses are finished may be finished with the line assembled from theirs. -/
theorem Settled.set_built {memo : Memo records.size} (h : Settled records memo)
    {index : Fin records.size} (hunderway : memo.get index = .underway) {lines : List Line}
    (hready : look memo (recordAt records index).response = .ready lines) {line : Line}
    (hline : assemble index (recordAt records index) lines = .ok line) :
    Settled records (memo.set index (.built line) index.isLt) := by
  intro other l hslot path hopen hfresh
  have hbefore := hopen.of_set_built
  by_cases heq : other = index
  · subst heq
    rw [get_set_self] at hslot
    obtain rfl := Slot.built.inj hslot
    have hpath : Open memo (other :: path) := by
      intro next hmem l hbuilt
      rcases List.mem_cons.mp hmem with rfl | hmem
      · rw [hunderway] at hbuilt
        cases hbuilt
      · exact hbefore next hmem l hbuilt
    have hall := foresees_look h hpath other (recordAt records other).response
    rw [hready, Foresees] at hall
    rw [resolve_eq, hall]
    exact hline
  · rw [get_set_of_ne memo _ heq] at hslot
    exact h other l hslot path hbefore hfresh

/-- Between entries no record is under way. -/
structure Quiet (records : Array Record) (memo : Memo records.size) : Prop where
  settled : Settled records memo
  idle : ∀ index : Fin records.size, memo.get index ≠ .underway

/-- What holds before every pass, for work that started on `root`. The stack is read from its top:
an error that plain recursion meets at any record of it, reached through those below, is the error
that it gives for `root`. -/
structure Work.Sound (records : Array Record) (root : Fin records.size)
    (work : Work records.size) : Prop where
  settled : Settled records work.memo
  underway : ∀ other, work.memo.get other = .underway ↔ other ∈ work.top :: work.below
  nodup : (work.top :: work.below).Nodup
  outermost : [root] <:+ work.top :: work.below
  errors : ∀ inner outer (hfresh : inner ∉ outer), inner :: outer <:+ work.top :: work.below →
    ∀ e, resolve records inner outer hfresh = .error e →
      resolve records root [] List.not_mem_nil = .error e

namespace Work.Sound

variable {root : Fin records.size} {work : Work records.size}

theorem fresh (h : work.Sound records root) : work.top ∉ work.below :=
  (List.nodup_cons.mp h.nodup).1

theorem isOpen (h : work.Sound records root) : Open work.memo (work.top :: work.below) := by
  intro other hmem line hbuilt
  have hunderway := (h.underway other).mpr hmem
  rw [hunderway] at hbuilt
  cases hbuilt

theorem foresees (h : work.Sound records root) :
    Foresees records work.top (work.top :: work.below) (recordAt records work.top).response
      (look work.memo (recordAt records work.top).response) :=
  foresees_look h.settled h.isOpen _ _

theorem error_of_resolveAll (h : work.Sound records root) {e : BuildError}
    (he : resolveAll records work.top (work.top :: work.below)
      (recordAt records work.top).response = .error e) :
    resolve records root [] List.not_mem_nil = .error e := by
  apply h.errors work.top work.below h.fresh List.suffix_rfl
  rw [resolve_eq, he]
  rfl

theorem error_of_assemble (h : work.Sound records root) {lines : List Line}
    (hready : look work.memo (recordAt records work.top).response = .ready lines) {e : BuildError}
    (he : assemble work.top (recordAt records work.top) lines = .error e) :
    resolve records root [] List.not_mem_nil = .error e := by
  apply h.errors work.top work.below h.fresh List.suffix_rfl
  have hall := h.foresees
  rw [hready, Foresees] at hall
  rw [resolve_eq, hall]
  exact he

theorem start (h : work.Sound records root) {response : Fin records.size}
    (hlook : look work.memo (recordAt records work.top).response = .unbuilt response) :
    (Work.start work.memo response (work.top :: work.below)).Sound records root := by
  have huntouched : work.memo.get response = .untouched := look_unbuilt hlook
  have hfresh : response ∉ work.top :: work.below := by
    intro hmem
    have hunderway := (h.underway response).mpr hmem
    rw [huntouched] at hunderway
    cases hunderway
  have hall := h.foresees
  rw [hlook, Foresees] at hall
  refine ⟨h.settled.set_underway huntouched, fun other => ?_, ?_, ?_, ?_⟩
  · by_cases heq : other = response
    · simp [Work.start, heq, get_set_self]
    · simp only [Work.start, List.mem_cons, heq, false_or, get_set_of_ne work.memo _ heq]
      exact (h.underway other).trans List.mem_cons
  · exact List.nodup_cons.mpr ⟨hfresh, h.nodup⟩
  · exact h.outermost.trans (List.suffix_cons ..)
  · intro inner outer hinner hsuffix e he
    rcases List.suffix_cons_iff.mp hsuffix with heq | hsuffix
    · obtain ⟨rfl, rfl⟩ := List.cons.inj heq
      exact h.error_of_resolveAll (hall hinner e he)
    · exact h.errors inner outer hinner hsuffix e he

/-- A record is finished above one that waits for it. -/
theorem resume (h : work.Sound records root) {lines : List Line}
    (hready : look work.memo (recordAt records work.top).response = .ready lines) {line : Line}
    (hline : assemble work.top (recordAt records work.top) lines = .ok line)
    {next : Fin records.size} {below : List (Fin records.size)}
    (hwaiting : work.below = next :: below) :
    (⟨work.memo.set work.top (.built line), next, below⟩ : Work records.size).Sound
      records root := by
  have htop : work.memo.get work.top = .underway := (h.underway work.top).mpr List.mem_cons_self
  have hfresh := h.fresh
  have hnodup := (List.nodup_cons.mp h.nodup).2
  have hsuffix := h.outermost
  rw [hwaiting] at hfresh hnodup hsuffix
  refine ⟨h.settled.set_built htop hready hline, fun other => ?_, hnodup, ?_, ?_⟩
  · by_cases heq : other = work.top
    · rw [heq, get_set_self]
      exact ⟨fun hslot => Slot.noConfusion hslot, fun hmem => absurd hmem hfresh⟩
    · rw [get_set_of_ne work.memo _ heq, h.underway other, hwaiting, List.mem_cons]
      exact or_iff_right heq
  · exact (List.suffix_cons_iff.mp hsuffix).resolve_left (by simp)
  · intro inner outer hinner hinside e he
    have hbelow : inner :: outer <:+ work.below := hwaiting ▸ hinside
    exact h.errors inner outer hinner (hbelow.trans (List.suffix_cons ..)) e he

theorem conclude (h : work.Sound records root) {lines : List Line}
    (hready : look work.memo (recordAt records work.top).response = .ready lines) {line : Line}
    (hline : assemble work.top (recordAt records work.top) lines = .ok line)
    (halone : work.below = []) :
    Quiet records (work.memo.set work.top (.built line)) ∧
      resolve records root [] List.not_mem_nil = .ok line := by
  have htop : work.memo.get work.top = .underway := (h.underway work.top).mpr List.mem_cons_self
  have hsettled := h.settled.set_built htop hready hline
  have hroot : root = work.top := by
    have hsuffix := h.outermost
    rw [halone] at hsuffix
    simpa using hsuffix.eq_of_length rfl
  refine ⟨⟨hsettled, fun other hslot => ?_⟩, ?_⟩
  · by_cases heq : other = work.top
    · rw [heq, get_set_self] at hslot
      cases hslot
    · rw [get_set_of_ne work.memo _ heq, h.underway other, halone] at hslot
      exact heq (List.mem_singleton.mp hslot)
  · rw [hroot]
    exact hsettled _ _ (get_set_self ..) [] (open_nil _) _

end Work.Sound

/-- What a pass may lead to, if the outermost record is `root`. -/
inductive Meets (records : Array Record) (root : Fin records.size) :
    Except BuildError (Progress records.size) → Prop
  | error {e : BuildError} :
    resolve records root [] List.not_mem_nil = .error e → Meets records root (.error e)
  | ongoing {work : Work records.size} :
    work.Sound records root → Meets records root (.ok (.ongoing work))
  | finished {memo : Memo records.size} {line : Line} :
    Quiet records memo → resolve records root [] List.not_mem_nil = .ok line →
      Meets records root (.ok (.finished memo line))

theorem meets_pass {root : Fin records.size} {work : Work records.size}
    (h : work.Sound records root) : Meets records root (pass records work) := by
  have hall := h.foresees
  rw [pass]
  cases hlook : look work.memo (recordAt records work.top).response with
  | outOfRange response =>
    rw [hlook] at hall
    exact .error (h.error_of_resolveAll hall)
  | cyclic response =>
    rw [hlook] at hall
    obtain ⟨hinside, hslot⟩ := look_cyclic hlook
    have hmem := (h.underway ⟨response, hinside⟩).mp hslot
    exact .error (h.error_of_resolveAll (hall hinside hmem))
  | unbuilt response => exact .ongoing (h.start hlook)
  | ready lines =>
    cases hline : assemble work.top (recordAt records work.top) lines with
    | error e =>
      simp only [hline, Except.map]
      exact .error (h.error_of_assemble hlook hline)
    | ok line =>
      simp only [hline, Except.map, Work.finish]
      cases hbelow : work.below with
      | nil =>
        obtain ⟨hquiet, hresolve⟩ := h.conclude hlook hline hbelow
        exact .finished hquiet hresolve
      | cons next below => exact .ongoing (h.resume hlook hline hbelow)

inductive Agrees (records : Array Record) (root : Fin records.size) :
    Except BuildError (Memo records.size × Line) → Prop
  | error {e : BuildError} :
    resolve records root [] List.not_mem_nil = .error e → Agrees records root (.error e)
  | ok {memo : Memo records.size} {line : Line} :
    Quiet records memo → resolve records root [] List.not_mem_nil = .ok line →
      Agrees records root (.ok (memo, line))

theorem agrees_complete {root : Fin records.size} {work : Work records.size}
    (h : work.Sound records root) : Agrees records root (complete records work) := by
  induction work using complete.induct records with
  | case1 work e hpass =>
    have hmeets := meets_pass h
    rw [hpass] at hmeets
    rw [complete, hpass]
    cases hmeets with
    | error hresolve => exact .error hresolve
  | case2 work memo line hpass =>
    have hmeets := meets_pass h
    rw [hpass] at hmeets
    rw [complete, hpass]
    cases hmeets with
    | finished hquiet hresolve => exact .ok hquiet hresolve
  | case3 work next hpass ih =>
    have hmeets := meets_pass h
    rw [hpass] at hmeets
    rw [complete, hpass]
    cases hmeets with
    | ongoing hsound => exact ih hsound

theorem quiet_blank (records : Array Record) : Quiet records (blank records.size) := by
  have hslot : ∀ index : Fin records.size, (blank records.size).get index = .untouched := by
    intro index
    exact Vector.getElem_replicate index.isLt
  constructor
  · intro index line h
    rw [hslot] at h
    cases h
  · intro index h
    rw [hslot] at h
    cases h

theorem sound_start {memo : Memo records.size} (h : Quiet records memo)
    {root : Fin records.size} (huntouched : memo.get root = .untouched) :
    (Work.start memo root []).Sound records root := by
  refine ⟨h.settled.set_underway huntouched, fun other => ?_, by simp [Work.start],
    List.suffix_rfl, fun inner outer hfresh hsuffix e he => ?_⟩
  · by_cases heq : other = root
    · simp [Work.start, heq, get_set_self]
    · simp only [Work.start, List.mem_singleton, heq, iff_false, get_set_of_ne memo _ heq]
      exact h.idle other
  · obtain ⟨rfl, rfl⟩ := List.cons.inj (hsuffix.eq_of_length_le (by simp [Work.start]))
    exact he

theorem agrees_lineAt {memo : Memo records.size} (h : Quiet records memo)
    (root : Fin records.size) : Agrees records root (lineAt records memo root) := by
  rw [lineAt]
  split
  · next line hslot =>
    exact .ok h (h.settled root line hslot [] (open_nil memo) _)
  · next hslot => exact absurd hslot (h.idle root)
  · next hslot => exact agrees_complete (sound_start h hslot)

theorem linesAt_eq_mapM {memo : Memo records.size} (h : Quiet records memo)
    (roots : List (Fin records.size)) :
    linesAt records memo roots =
      roots.mapM fun root => resolve records root [] List.not_mem_nil := by
  induction roots generalizing memo with
  | nil => rfl
  | cons root rest ih =>
    have hagrees := agrees_lineAt h root
    rw [linesAt, List.mapM_cons]
    cases hline : lineAt records memo root with
    | error e =>
      rw [hline] at hagrees
      cases hagrees with
      | error hresolve =>
        rw [hresolve]
        rfl
    | ok result =>
      obtain ⟨after, line⟩ := result
      rw [hline] at hagrees
      cases hagrees with
      | ok hquiet hresolve =>
        rw [hresolve]
        change (linesAt records after rest >>= fun lines => .ok (line :: lines)) = _
        rw [ih hquiet]
        rfl

theorem build_eq_ok_iff {lines : List Line} :
    build records = .ok lines ↔
      List.Forall₂ (fun root line => resolve records root [] List.not_mem_nil = .ok line)
        (entries records) lines := by
  rw [build, linesAt_eq_mapM (quiet_blank records), mapM_eq_ok_iff]

end Parley.Conversation
