import Parley.Session
import Mathlib.Logic.Relation

/-!
# What every sequence of calls keeps

A session is called in any order and goes on after errors. Whatever the calls, it waits only for
responses to lines that have some and that the entries of its NPC lead to, it never chooses an
entry twice, and once it is over no call has any effect at all.
-/

namespace Parley

def Line.Offers (line next : Line) : Prop :=
  next ∈ line.responses

/-- The line has responses, and one of the entries leads to it. -/
def Line.Live (entries : List Line) (line : Line) : Prop :=
  line.responses ≠ [] ∧ ∃ entry ∈ entries, Relation.ReflTransGen Line.Offers entry line

/-- The source, with a list of the lines that it has been asked about. -/
def AnswerSource.recorded {τ : Type} (answers : AnswerSource τ) :
    AnswerSource (τ × List Line) where
  select := fun (source, asked) line =>
    let answer := answers.select source line
    ⟨answer.selection, answer.messages, (answer.source, asked ++ [line])⟩

namespace Session

/-- A call on a session. A run may take its answers from any source. -/
inductive Operation : Type 1
  | begin
  | advance (selection : Selection)
  | cancel
  | run {τ : Type} (answers : AnswerSource τ) (source : τ)

variable {σ τ : Type}

namespace Operation

def turn (collaborators : Collaborators σ) (session : Session) (world : World σ) :
    Operation → Turn σ
  | begin => session.begin collaborators world
  | advance selection => session.advance collaborators world selection
  | cancel => ⟨.ok (), session.cancel, world⟩
  | run answers source => (session.run collaborators answers world source).1

/-- The lines that a source of answers is asked about during the call. -/
def asked (collaborators : Collaborators σ) (session : Session) (world : World σ) :
    Operation → List Line
  | run answers source =>
    (session.run collaborators answers.recorded world (source, [])).2.2
  | _ => []

end Operation

def callAll (collaborators : Collaborators σ) (session : Session) (world : World σ) :
    List Operation → Session × World σ
  | [] => (session, world)
  | operation :: rest =>
    let turn := operation.turn collaborators session world
    callAll collaborators turn.session turn.world rest

def askedAll (collaborators : Collaborators σ) (session : Session) (world : World σ) :
    List Operation → List Line
  | [] => []
  | operation :: rest =>
    let turn := operation.turn collaborators session world
    operation.asked collaborators session world
      ++ askedAll collaborators turn.session turn.world rest

/-- What asking for one answer and advancing keeps, a whole conversation keeps. -/
theorem converse_preserves {P : Session → World σ → τ → Prop} {collaborators : Collaborators σ}
    {answers : AnswerSource τ}
    (hstep : ∀ session world source line, session.phase = .active line → P session world source →
      let answer := answers.select source line
      let turn := advance collaborators session (world.offerAll answer.messages) answer.selection
      P turn.session turn.world answer.source)
    {session : Session} {world : World σ} {source : τ} (h : P session world source) :
    let result := converse collaborators answers session world source
    P result.1.session result.1.world result.2 := by
  fun_induction converse collaborators answers session world source with
  | case1 session world source line hactive answer turn error herror =>
    exact hstep session world source line hactive h
  | case2 session world source line hactive answer turn hok ih =>
    exact ih (hstep session world source line hactive h)
  | case3 => exact h

theorem run_resumes {collaborators : Collaborators σ} {answers : AnswerSource τ}
    {session : Session} {world : World σ} {source : τ} (h : session.phase ≠ .selectingEntry) :
    run collaborators answers session world source
      = converse collaborators answers session world source := by
  rw [run]
  split
  · next hphase => exact absurd hphase h
  · rfl

theorem run_preserves {P : Session → World σ → τ → Prop} {collaborators : Collaborators σ}
    {answers : AnswerSource τ}
    (hbegin : ∀ session world source, P session world source →
      let turn := begin collaborators session world
      P turn.session turn.world source)
    (hstep : ∀ session world source line, session.phase = .active line → P session world source →
      let answer := answers.select source line
      let turn := advance collaborators session (world.offerAll answer.messages) answer.selection
      P turn.session turn.world answer.source)
    {session : Session} {world : World σ} {source : τ} (h : P session world source) :
    let result := run collaborators answers session world source
    P result.1.session result.1.world result.2 := by
  by_cases hphase : session.phase = .selectingEntry
  · simp only [run, hphase]
    cases (begin collaborators session world).result with
    | error error => exact hbegin session world source h
    | ok => exact converse_preserves hstep (hbegin session world source h)
  · rw [run_resumes hphase]
    exact converse_preserves hstep h

theorem converse_active {collaborators : Collaborators σ} {answers : AnswerSource τ}
    {session : Session} {world : World σ} {source : τ} {line : Line}
    (h : session.phase = .active line) :
    converse collaborators answers session world source =
      let answer := answers.select source line
      let turn := advance collaborators session (world.offerAll answer.messages) answer.selection
      match turn.result with
      | .error _ => (turn, answer.source)
      | .ok () => converse collaborators answers turn.session turn.world answer.source := by
  rw [converse]
  split
  · next line' h' =>
    obtain rfl := Phase.active.inj (h.symm.trans h')
    dsimp only
    split <;> simp_all
  · next hidle => exact absurd h (hidle line)

theorem converse_idle {collaborators : Collaborators σ} {answers : AnswerSource τ}
    {session : Session} {world : World σ} {source : τ}
    (h : ∀ line, session.phase ≠ .active line) :
    converse collaborators answers session world source = (⟨.ok (), session, world⟩, source) := by
  rw [converse]
  split
  · next line hactive => exact absurd hactive (h line)
  · rfl

theorem converse_recorded (collaborators : Collaborators σ) (answers : AnswerSource τ)
    (session : Session) (world : World σ) (source : τ) (asked : List Line) :
    let result := converse collaborators answers.recorded session world (source, asked)
    (result.1, result.2.1) = converse collaborators answers session world source := by
  fun_induction converse collaborators answers session world source generalizing asked with
  | case1 session world source line hactive answer turn error herror =>
    simp only [turn, answer] at herror
    rw [converse_active hactive]
    simp only [AnswerSource.recorded, herror, turn, answer]
  | case2 session world source line hactive answer turn hok ih =>
    simp only [turn, answer] at hok
    rw [converse_active hactive]
    simp only [AnswerSource.recorded, hok]
    exact ih (asked ++ [line])
  | case3 session world source hidle =>
    rw [converse_idle hidle]

/-- Recording the lines that a source is asked about changes nothing else. -/
theorem run_recorded (collaborators : Collaborators σ) (answers : AnswerSource τ)
    (session : Session) (world : World σ) (source : τ) (asked : List Line) :
    let result := run collaborators answers.recorded session world (source, asked)
    (result.1, result.2.1) = run collaborators answers session world source := by
  by_cases hphase : session.phase = .selectingEntry
  · simp only [run, hphase]
    cases (begin collaborators session world).result with
    | error error => rfl
    | ok => exact converse_recorded ..
  · rw [run_resumes hphase, run_resumes hphase]
    exact converse_recorded ..

/-- A property of sessions that no call takes away. -/
structure Kept (collaborators : Collaborators σ) (P : Session → Prop) : Prop where
  begin : ∀ session world, P session → P (session.begin collaborators world).session
  advance : ∀ session world selection, P session →
    P (session.advance collaborators world selection).session
  cancel : ∀ session, P session → P session.cancel

theorem Kept.turn {collaborators : Collaborators σ} {P : Session → Prop}
    (hkept : Kept collaborators P) {session : Session} (world : World σ) (operation : Operation)
    (h : P session) : P (operation.turn collaborators session world).session := by
  cases operation with
  | begin => exact hkept.begin session world h
  | advance selection => exact hkept.advance session world selection h
  | cancel => exact hkept.cancel session h
  | run answers source =>
    exact run_preserves (P := fun session _ _ => P session)
      (fun session world _ h => hkept.begin session world h)
      (fun session _ _ _ _ h => hkept.advance session _ _ h) h

theorem Kept.callAll {collaborators : Collaborators σ} {P : Session → Prop}
    (hkept : Kept collaborators P) {session : Session} (world : World σ)
    (operations : List Operation) (h : P session) :
    P (callAll collaborators session world operations).1 := by
  induction operations generalizing session world with
  | nil => exact h
  | cons operation rest ih =>
    have hturn := hkept.turn world operation h
    exact ih _ hturn

theorem phase_deliver_ne (collaborators : Collaborators σ) (session : Session) (world : World σ)
    (line : Line) : (deliver collaborators session world line).session.phase ≠ .selectingEntry := by
  rw [deliver]
  split
  · simp [terminate]
  · simp only [Phase.after]
    split <;> simp

theorem phase_begin_ne (collaborators : Collaborators σ) (session : Session) (world : World σ) :
    (begin collaborators session world).session.phase ≠ .selectingEntry := by
  rw [begin]
  split
  · split
    · simp [terminate]
    · simp [terminate]
    · exact phase_deliver_ne _ _ _ _
  · next hphase => exact hphase

theorem kept_started (collaborators : Collaborators σ) :
    Kept collaborators fun session => session.phase ≠ .selectingEntry where
  begin := fun session world _ => phase_begin_ne collaborators session world
  advance := by
    intro session world selection h
    rw [advance]
    split
    · exact h
    · exact h
    · split
      · simp [terminate]
      · split
        · exact phase_deliver_ne _ _ _ _
        · exact h
  cancel := by simp [cancel, terminate]

/-- The session opens with one of the entries, and waits only for responses to live lines. -/
structure Sound (entries : List Line) (session : Session) : Prop where
  entries_eq : session.entries = entries
  live : ∀ line, session.phase = .active line → line.Live entries

section Sound

variable {entries : List Line} {session : Session}

theorem Sound.terminate (h : session.Sound entries) : session.terminate.Sound entries :=
  ⟨h.entries_eq, fun _ hphase => by cases hphase⟩

theorem Sound.deliver (h : session.Sound entries) (collaborators : Collaborators σ)
    (world : World σ) {line : Line}
    (hled : ∃ entry ∈ entries, Relation.ReflTransGen Line.Offers entry line) :
    (session.deliver collaborators world line).session.Sound entries := by
  rw [Session.deliver]
  split
  · exact h.terminate
  · refine ⟨h.entries_eq, fun next hphase => ?_⟩
    simp only [Phase.after] at hphase
    split at hphase
    · cases hphase
    · next hlast =>
      cases hphase
      exact ⟨mt List.isEmpty_iff.mpr hlast, hled⟩

theorem mem_of_choose {item? : ItemLookup} {npc : Npc} {player : Player} {lines : List Line}
    {line : Line} (h : choose item? npc player lines = .ok (some line)) : line ∈ lines := by
  induction lines with
  | nil => simp [choose] at h
  | cons head rest ih =>
    rw [choose] at h
    split at h
    · cases h
    · cases h
      exact List.mem_cons_self
    · exact List.mem_cons_of_mem head (ih h)

theorem kept_sound (collaborators : Collaborators σ) (entries : List Line) :
    Kept collaborators (Sound entries) where
  begin := by
    intro session world h
    rw [Session.begin]
    split
    · split
      · exact h.terminate
      · exact h.terminate
      · next line hchoice =>
        have hentry := h.entries_eq ▸ mem_of_choose hchoice
        exact h.deliver collaborators world ⟨line, hentry, .refl⟩
    · exact h
  advance := by
    intro session world selection h
    rw [Session.advance]
    split
    · exact h
    · exact h
    · next line hphase =>
      split
      · exact h.terminate
      · split
        · next choice response hresponse =>
          obtain ⟨-, entry, hentry, hled⟩ := h.live line hphase
          have hoffers : line.Offers response := List.mem_of_getElem? hresponse
          exact h.deliver collaborators world ⟨entry, hentry, hled.tail hoffers⟩
        · exact h
  cancel := fun _ h => h.terminate

theorem sound_new (registry : Registry) (npc : Npc) :
    (new registry npc).Sound (registry.entries npc.name) :=
  ⟨rfl, fun _ hphase => by cases hphase⟩

end Sound

theorem options_ne_nil_iff {entries : List Line} {session : Session} (h : session.Sound entries) :
    session.options ≠ [] ↔ ∃ line, session.phase = .active line := by
  rw [options]
  cases hphase : session.phase with
  | selectingEntry => simp [Phase.current?]
  | active line => simpa [Phase.current?] using (h.live line hphase).1
  | terminated => simp [Phase.current?]

def SoundAsking (entries : List Line) (session : Session) (_ : World σ)
    (source : τ × List Line) : Prop :=
  session.Sound entries ∧ ∀ line ∈ source.2, line.Live entries

/-- A source is asked about the line that the session waits at, which is a live one. -/
theorem soundAsking_run (collaborators : Collaborators σ) (answers : AnswerSource τ)
    (world : World σ) (source : τ) {entries : List Line} {session : Session}
    (h : session.Sound entries) :
    let result := session.run collaborators answers.recorded world (source, [])
    SoundAsking entries result.1.session result.1.world result.2 := by
  have hkept := kept_sound collaborators entries
  refine run_preserves (P := SoundAsking entries) ?_ ?_ ⟨h, by simp⟩
  · intro session world source ⟨hsound, hbefore⟩
    exact ⟨hkept.begin session world hsound, hbefore⟩
  · intro session world source line hphase ⟨hsound, hbefore⟩
    refine ⟨hkept.advance session _ _ hsound, fun asked hasked => ?_⟩
    rcases List.mem_append.mp hasked with hasked | hasked
    · exact hbefore asked hasked
    · rw [List.mem_singleton.mp hasked]
      exact hsound.live line hphase

theorem live_of_asked (collaborators : Collaborators σ) {entries : List Line} {session : Session}
    (world : World σ) (operation : Operation) (h : session.Sound entries) {line : Line}
    (hline : line ∈ operation.asked collaborators session world) : line.Live entries := by
  cases operation with
  | run answers source => exact (soundAsking_run collaborators answers world source h).2 line hline
  | begin => cases hline
  | advance => cases hline
  | cancel => cases hline

theorem live_of_askedAll (collaborators : Collaborators σ) {entries : List Line}
    {session : Session} (world : World σ) (operations : List Operation)
    (h : session.Sound entries) {line : Line}
    (hline : line ∈ askedAll collaborators session world operations) : line.Live entries := by
  induction operations generalizing session world with
  | nil => cases hline
  | cons operation rest ih =>
    rcases List.mem_append.mp hline with hnow | hlater
    · exact live_of_asked collaborators world operation h hnow
    · have hturn := (kept_sound collaborators entries).turn world operation h
      exact ih _ hturn hlater

theorem turn_of_terminated (collaborators : Collaborators σ) {session : Session}
    (world : World σ) (operation : Operation) (h : session.phase = .terminated) :
    (operation.turn collaborators session world).session = session ∧
      (operation.turn collaborators session world).world = world ∧
      operation.asked collaborators session world = [] := by
  cases operation with
  | begin => simp [Operation.turn, Operation.asked, begin, h]
  | advance selection => simp [Operation.turn, Operation.asked, advance, h]
  | cancel =>
    refine ⟨?_, rfl, rfl⟩
    rw [Operation.turn, cancel, terminate, ← h]
  | run answers source =>
    have hstarted : session.phase ≠ .selectingEntry := by simp [h]
    have hidle : ∀ line, session.phase ≠ .active line := by simp [h]
    simp [Operation.turn, Operation.asked, run_resumes hstarted, converse_idle hidle]

theorem callAll_of_terminated (collaborators : Collaborators σ) {session : Session}
    (world : World σ) (operations : List Operation) (h : session.phase = .terminated) :
    callAll collaborators session world operations = (session, world) ∧
      askedAll collaborators session world operations = [] := by
  induction operations with
  | nil => exact ⟨rfl, rfl⟩
  | cons operation rest ih =>
    obtain ⟨hsession, hworld, hasked⟩ := turn_of_terminated collaborators world operation h
    simpa only [callAll, askedAll, hsession, hworld, hasked, List.nil_append] using ih

/-- Whatever is called `before` and `after`: a session that waits, waits at a live line, and has
options just when it waits; it does not choose an entry twice; once it is over, it stays over, and
leaves the world and all sources of answers alone; and sources are only asked about live lines. -/
theorem calls_keep_sessions_sound (collaborators : Collaborators σ) (registry : Registry)
    (npc : Npc) (world : World σ) (before after : List Operation) :
    let entries := registry.entries npc.name
    let (session, world) := callAll collaborators (new registry npc) world before
    let (session', world') := callAll collaborators session world after
    let asked := askedAll collaborators session world after
    (∀ line, session.phase = .active line → line.Live entries) ∧
      (session.options ≠ [] ↔ ∃ line, session.phase = .active line) ∧
      (session.phase ≠ .selectingEntry → session'.phase ≠ .selectingEntry) ∧
      (session.phase = .terminated →
        session'.phase = .terminated ∧ world' = world ∧ asked = []) ∧
      ∀ line ∈ asked, line.Live entries := by
  have hsound := (kept_sound collaborators _).callAll world before (sound_new registry npc)
  generalize callAll collaborators (new registry npc) world before = middle at hsound ⊢
  obtain ⟨session, world⟩ := middle
  refine ⟨hsound.live, options_ne_nil_iff hsound, ?_, ?_, ?_⟩
  · exact (kept_started collaborators).callAll world after
  · intro hover
    obtain ⟨hcalls, hasked⟩ := callAll_of_terminated collaborators world after hover
    rw [hcalls]
    exact ⟨hover, rfl, hasked⟩
  · intro line hline
    exact live_of_askedAll collaborators world after hsound hline

end Session

end Parley
