import Parley.Proofs.Replays

/-!
# Messages taken in between

The messages of a session may be taken while it goes on, one by one or all at once. Whoever takes
them takes them in their order and misses none, and the session does not notice.
-/

namespace Parley

namespace Messages

theorem size_eq (messages : Messages) : messages.size = messages.toList.length :=
  Array.length_toList.symm

theorem isEmpty_iff {messages : Messages} : messages.isEmpty = true ↔ messages.toList = [] :=
  Array.isEmpty_iff.trans Array.toList_eq_nil_iff.symm

theorem toList_eq_poll (messages : Messages) :
    messages.toList = messages.poll.1.toList ++ messages.poll.2.toList := by
  rw [poll_fst, toList_poll_snd]
  cases messages.toList <;> rfl

theorem toList_eq_drain (messages : Messages) :
    messages.toList = messages.drain.1 ++ messages.drain.2.toList := by
  rw [drain_fst, toList_drain_snd, List.append_nil]

end Messages

namespace Session

variable {σ τ : Type}

section Hearing

variable {collaborators : Collaborators σ} {answers : AnswerSource τ}

/-- What is shown when the source answers a line, by the source and then by the session. -/
def replying (answers : AnswerSource τ) (session : Session) (world : World σ) (source : τ)
    (line : Line) : List String :=
  let answer := answers.select source line
  answer.messages ++ (Move.advance answer.selection).said session world

theorem turn_exchange_withMessages (session : Session) (world : World σ) (messages : Messages)
    (source : τ) (line : Line) :
    (session.exchange collaborators answers (world.withMessages messages) source line).turn =
      (session.exchange collaborators answers world source line).turn.withMessages
        (messages.offerAll (session.replying answers world source line)) := by
  rw [turn_exchange, turn_exchange, turn_withMessages]
  rfl

theorem Held.withMessages {session : Session} {world : World σ} {source : τ}
    {log : List (Line × Answer τ)} {result : Turn σ × τ}
    (h : Held collaborators answers session world source log result) :
    ∃ said, ∀ messages,
      converse collaborators answers session (world.withMessages messages) source =
        (result.1.withMessages (messages.offerAll said), result.2) := by
  induction h with
  | idle hidle =>
    refine ⟨[], fun messages => ?_⟩
    rw [converse_idle hidle]
    rfl
  | @failed session world source line error hline herror =>
    refine ⟨session.replying answers world source line, fun messages => ?_⟩
    rw [converse_eq_exchange hline]
    simp only [turn_exchange_withMessages, Turn.withMessages, herror]
    rfl
  | @answered session world source line _ _ hline hok _ ih =>
    obtain ⟨said, hrest⟩ := ih
    refine ⟨session.replying answers world source line ++ said, fun messages => ?_⟩
    rw [converse_eq_exchange hline]
    simp only [turn_exchange_withMessages, Turn.withMessages, hok]
    rw [Messages.offerAll_append]
    exact hrest _

/-- The messages that wait make no difference to a run, which adds the same to any of them. -/
theorem run_withMessages (collaborators : Collaborators σ) (answers : AnswerSource τ)
    (session : Session) (world : World σ) (source : τ) :
    let result := run collaborators answers session world source
    ∃ said, ∀ messages,
      run collaborators answers session (world.withMessages messages) source =
        (result.1.withMessages (messages.offerAll said), result.2) := by
  obtain ⟨log, hruns⟩ := runs_run collaborators answers session world source
  dsimp only
  generalize run collaborators answers session world source = result at hruns
  cases hruns with
  | unopened herror =>
    refine ⟨session.greeting world, fun messages => ?_⟩
    rw [run_eq_opened, opened_withMessages]
    simp only [Turn.withMessages, herror]
  | opened hok hheld =>
    obtain ⟨said, hrest⟩ := hheld.withMessages
    refine ⟨session.greeting world ++ said, fun messages => ?_⟩
    rw [run_eq_opened, opened_withMessages, Messages.offerAll_append]
    simp only [Turn.withMessages, hok]
    exact hrest _

end Hearing

/-- What happens to a session and its messages. A run takes its answers from a source whose state
the runs before have left behind. -/
inductive Event (τ : Type)
  | move (move : Move)
  | run (answers : AnswerSource τ)
  | poll
  | drain

def Event.isCall : Event τ → Bool
  | move _ | run _ => true
  | poll | drain => false

/-- Where things stand: the session, its world and the source of answers, what each call has come
to and left, and the messages that have been taken. -/
structure Scene (σ τ : Type) where
  session : Session
  world : World σ
  source : τ
  reports : List (Except SessionError Unit × Session)
  taken : List String

namespace Scene

def opening (session : Session) (world : World σ) (source : τ) : Scene σ τ :=
  ⟨session, world, source, [], []⟩

def report (scene : Scene σ τ) (result : Turn σ × τ) : Scene σ τ :=
  let (turn, source) := result
  ⟨turn.session, turn.world, source, scene.reports ++ [(turn.result, turn.session)], scene.taken⟩

def take (scene : Scene σ τ) (messages : List String) (left : Messages) : Scene σ τ :=
  { scene with world := scene.world.withMessages left, taken := scene.taken ++ messages }

def step (collaborators : Collaborators σ) (scene : Scene σ τ) : Event τ → Scene σ τ
  | .move move =>
    scene.report (move.turn collaborators scene.session scene.world, scene.source)
  | .run answers =>
    scene.report (scene.session.run collaborators answers scene.world scene.source)
  | .poll =>
    let (message?, left) := scene.world.messages.poll
    scene.take message?.toList left
  | .drain =>
    let (messages, left) := scene.world.messages.drain
    scene.take messages left

def after (collaborators : Collaborators σ) (scene : Scene σ τ) (events : List (Event τ)) :
    Scene σ τ :=
  events.foldl (step collaborators) scene

/-- The other scene is the same, but with nothing taken: all messages are still there. -/
structure Untapped (scene other : Scene σ τ) : Prop where
  session_eq : other.session = scene.session
  world_eq : other.world = scene.world.withMessages other.world.messages
  source_eq : other.source = scene.source
  reports_eq : other.reports = scene.reports
  taken_eq : other.taken = []
  messages_eq : other.world.messages.toList = scene.taken ++ scene.world.messages.toList

variable {scene other : Scene σ τ}

theorem Untapped.report (h : scene.Untapped other) {turn : Turn σ} {source : τ}
    {said : List String} (hadds : turn.world.messages = scene.world.messages.offerAll said) :
    (scene.report (turn, source)).Untapped
      (other.report (turn.withMessages (other.world.messages.offerAll said), source)) where
  session_eq := rfl
  world_eq := rfl
  source_eq := rfl
  reports_eq := congrArg (· ++ [(turn.result, turn.session)]) h.reports_eq
  taken_eq := h.taken_eq
  messages_eq := by
    have hall : (other.world.messages.offerAll said).toList =
        scene.taken ++ turn.world.messages.toList := by
      rw [hadds, Messages.toList_offerAll, Messages.toList_offerAll, h.messages_eq,
        List.append_assoc]
    exact hall

theorem Untapped.take (h : scene.Untapped other) {messages : List String} {left : Messages}
    (hsplit : scene.world.messages.toList = messages ++ left.toList) :
    (scene.take messages left).Untapped other where
  session_eq := h.session_eq
  world_eq := h.world_eq
  source_eq := h.source_eq
  reports_eq := h.reports_eq
  taken_eq := h.taken_eq
  messages_eq := by
    rw [h.messages_eq, hsplit, ← List.append_assoc]
    rfl

theorem Untapped.call (h : scene.Untapped other) (collaborators : Collaborators σ)
    {event : Event τ} (hcall : event.isCall = true) :
    (scene.step collaborators event).Untapped (other.step collaborators event) := by
  cases event with
  | move move =>
    have hadds : ∀ messages,
        move.turn collaborators scene.session (scene.world.withMessages messages) =
          (move.turn collaborators scene.session scene.world).withMessages
            (messages.offerAll (move.said scene.session scene.world)) :=
      fun messages => turn_withMessages scene.session scene.world messages move
    have hhere := congrArg (·.world.messages) (hadds scene.world.messages)
    simp only [step, h.session_eq, h.source_eq]
    rw [h.world_eq, hadds]
    exact h.report hhere
  | run answers =>
    obtain ⟨said, hadds⟩ :=
      run_withMessages collaborators answers scene.session scene.world scene.source
    have hhere := congrArg (·.1.world.messages) (hadds scene.world.messages)
    simp only [step, h.session_eq, h.source_eq]
    rw [h.world_eq, hadds]
    exact h.report hhere
  | poll | drain => cases hcall

theorem Untapped.taking (h : scene.Untapped other) (collaborators : Collaborators σ)
    {event : Event τ} (htaking : event.isCall = false) :
    (scene.step collaborators event).Untapped other := by
  cases event with
  | poll => exact h.take scene.world.messages.toList_eq_poll
  | drain => exact h.take scene.world.messages.toList_eq_drain
  | move | run => cases htaking

theorem Untapped.after (h : scene.Untapped other) (collaborators : Collaborators σ)
    (events : List (Event τ)) :
    (scene.after collaborators events).Untapped
      (other.after collaborators (events.filter Event.isCall)) := by
  induction events generalizing scene other with
  | nil => exact h
  | cons event rest ih =>
    cases hcall : event.isCall with
    | true =>
      rw [List.filter_cons_of_pos hcall]
      exact ih (h.call collaborators hcall)
    | false =>
      rw [List.filter_cons_of_neg (by simp [hcall])]
      exact ih (h.taking collaborators hcall)

theorem untapped_opening (session : Session) (world : World σ) (source : τ) :
    (opening session world source).Untapped (opening session world source) :=
  ⟨rfl, rfl, rfl, rfl, rfl, rfl⟩

/-- However the messages are taken in between, all calls come to the same as if none were, and what
has been taken, followed by what still waits, is what would be waiting then. The size of the queue
is the number of messages not yet taken, and it is empty when there are none. -/
theorem taking_changes_nothing (collaborators : Collaborators σ) (session : Session)
    (world : World σ) (source : τ) (events : List (Event τ)) :
    let scene := (opening session world source).after collaborators events
    let untapped :=
      (opening session world source).after collaborators (events.filter Event.isCall)
    scene.Untapped untapped ∧
      scene.world.messages.size = scene.world.messages.toList.length ∧
      scene.world.messages.size =
        untapped.world.messages.toList.length - scene.taken.length ∧
      (scene.world.messages.isEmpty = true ↔ scene.world.messages.toList = []) ∧
      (scene.world.messages.isEmpty = true ↔ scene.taken = untapped.world.messages.toList) := by
  intro scene untapped
  have huntapped : scene.Untapped untapped :=
    (untapped_opening session world source).after collaborators events
  have hmessages := huntapped.messages_eq
  refine ⟨huntapped, scene.world.messages.size_eq, ?_, Messages.isEmpty_iff, ?_⟩
  · have hlength := congrArg List.length hmessages
    rw [List.length_append] at hlength
    rw [Messages.size_eq]
    omega
  · rw [Messages.isEmpty_iff, hmessages, List.self_eq_append_right]

end Scene

end Session

end Parley
