import Parley.Answer.Basic
import Parley.Conversation.Registry
import Parley.World.Basic
import Parley.World.Judgement

/-!
# Sessions

A session is one conversation of the player with an NPC. It begins by choosing the line that opens
it: the first whose condition holds. A line is delivered by showing its text and doing its action;
then the session waits for one of its responses, or is over if it has none. A session that is over
does nothing more.
-/

namespace Parley

inductive SessionError
  | condition (error : ConditionError)
  | playerDied (death : PlayerDeath)
  | invalidSelection (choice options : Nat)
  | notStarted
  | alreadyStarted
deriving DecidableEq

def SessionError.message : SessionError → String
  | condition error => error.message
  | playerDied death => death.message
  | invalidSelection choice options =>
    "response " ++ toString choice ++ " selected, but only " ++ toString options
      ++ " are available"
  | notStarted => "conversation has not started yet"
  | alreadyStarted => "conversation has already started"

inductive Phase
  | selectingEntry
  /-- The line has been delivered and waits for a response. -/
  | active (line : Line)
  | terminated

namespace Phase

/-- After a line, the session waits for a response if there is one to give. -/
def after (line : Line) : Phase :=
  if line.isLast then terminated else active line

def isTerminated : Phase → Bool
  | terminated => true
  | _ => false

def current? : Phase → Option Line
  | active line => some line
  | _ => none

/-- What is left of the conversation, at most. -/
noncomputable def remaining : Phase → Nat
  | active line => sizeOf line
  | _ => 0

end Phase

structure Session where
  npc : Npc
  entries : List Line
  phase : Phase

/-- What a call comes to: its result, the session and the world after it. -/
structure Turn (σ : Type) where
  result : Except SessionError Unit
  session : Session
  world : World σ

namespace Session

variable {σ τ : Type}

def new (registry : Registry) (npc : Npc) : Session :=
  ⟨npc, registry.entries npc.name, .selectingEntry⟩

def options (session : Session) : List Line :=
  (session.phase.current?.map (·.responses)).getD []

def terminate (session : Session) : Session :=
  { session with phase := .terminated }

def cancel (session : Session) : Session :=
  session.terminate

/-- The first line whose condition holds, if there is one. A condition that cannot be judged is an
error unless a line before it holds. -/
def choose (item? : ItemLookup) (npc : Npc) (player : Player) :
    List Line → Except ConditionError (Option Line)
  | [] => .ok none
  | line :: rest =>
    match line.holds item? npc player with
    | .error error => .error error
    | .ok true => .ok (some line)
    | .ok false => choose item? npc player rest

/-- Show the text of a line, then do its action. The player's death ends the session. -/
def deliver (collaborators : Collaborators σ) (session : Session) (world : World σ) (line : Line) :
    Turn σ :=
  match (world.offer line.text).act collaborators session.npc line.action with
  | (world, some death) => ⟨.error (.playerDied death), session.terminate, world⟩
  | (world, none) => ⟨.ok (), { session with phase := .after line }, world⟩

def begin (collaborators : Collaborators σ) (session : Session) (world : World σ) : Turn σ :=
  match session.phase with
  | .selectingEntry =>
    match choose world.item? session.npc world.player session.entries with
    | .error error => ⟨.error (.condition error), session.terminate, world⟩
    | .ok none => ⟨.ok (), session.terminate, world⟩
    | .ok (some line) => deliver collaborators session world line
  | _ => ⟨.error .alreadyStarted, session, world⟩

def advance (collaborators : Collaborators σ) (session : Session) (world : World σ)
    (selection : Selection) : Turn σ :=
  match session.phase with
  | .selectingEntry => ⟨.error .notStarted, session, world⟩
  | .terminated => ⟨.ok (), session, world⟩
  | .active line =>
    match selection with
    | .leave => ⟨.ok (), session.terminate, world⟩
    | .respond choice =>
      match line.responses[choice]? with
      | some response => deliver collaborators session world response
      | none => ⟨.error (.invalidSelection choice line.responses.length), session, world⟩

theorem remaining_after_le (line : Line) : (Phase.after line).remaining ≤ sizeOf line := by
  simp only [Phase.after]
  split <;> simp [Phase.remaining]

theorem sizeOf_response_lt {line response : Line} {choice : Nat}
    (h : line.responses[choice]? = some response) : sizeOf response < sizeOf line := by
  have hsmaller := List.sizeOf_lt_of_mem (List.mem_of_getElem? h)
  cases line
  simp only [Line.mk.sizeOf_spec] at hsmaller ⊢
  omega

theorem remaining_deliver_le (collaborators : Collaborators σ) (session : Session)
    (world : World σ) (line : Line) :
    (deliver collaborators session world line).session.phase.remaining ≤ sizeOf line := by
  simp only [deliver]
  split
  · simp [terminate, Phase.remaining]
  · exact remaining_after_le line

theorem remaining_advance_lt {collaborators : Collaborators σ} {session : Session}
    {world : World σ} {line : Line} {selection : Selection} (hactive : session.phase = .active line)
    (hok : (advance collaborators session world selection).result = .ok ()) :
    (advance collaborators session world selection).session.phase.remaining
      < session.phase.remaining := by
  have hpositive : 0 < sizeOf line := by
    cases line
    simp only [Line.mk.sizeOf_spec]
    omega
  simp only [advance, hactive] at hok ⊢
  split at hok
  · simpa [terminate, Phase.remaining] using hpositive
  · split at hok
    · next hfound =>
      exact Nat.lt_of_le_of_lt (remaining_deliver_le ..) (sizeOf_response_lt hfound)
    · simp at hok

/-- Ask for a response and advance, for as long as the session waits for one. -/
def converse (collaborators : Collaborators σ) (answers : AnswerSource τ) (session : Session)
    (world : World σ) (source : τ) : Turn σ × τ :=
  match _hactive : session.phase with
  | .active line =>
    let answer := answers.select source line
    let turn := advance collaborators session (world.offerAll answer.messages) answer.selection
    match _hok : turn.result with
    | .error _ => (turn, answer.source)
    | .ok () => converse collaborators answers turn.session turn.world answer.source
  | _ => (⟨.ok (), session, world⟩, source)
termination_by session.phase.remaining
decreasing_by exact remaining_advance_lt _hactive _hok

/-- Hold the conversation to its end, beginning it first if need be. -/
def run (collaborators : Collaborators σ) (answers : AnswerSource τ) (session : Session)
    (world : World σ) (source : τ) : Turn σ × τ :=
  match session.phase with
  | .selectingEntry =>
    let turn := begin collaborators session world
    match turn.result with
    | .error _ => (turn, source)
    | .ok () => converse collaborators answers turn.session turn.world source
  | _ => converse collaborators answers session world source

/-- A whole conversation with an NPC, which is nothing at all if the NPC has none. -/
def start (collaborators : Collaborators σ) (answers : AnswerSource τ) (registry : Registry)
    (npc : Npc) (world : World σ) (source : τ) : Turn σ × τ :=
  run collaborators answers (new registry npc) world source

end Session

end Parley
