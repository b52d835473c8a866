import Parley.Proofs.Failures
import Parley.Proofs.FlatWalk

/-!
# What the course of a conversation depends on

Once a session waits for an answer, only the answers and the player's death decide how it goes on.
In any two worlds with the same notice, and whatever fights and trades make of them, the same calls
have the same results and show the same messages until the player dies. The conditions of the lines
are not looked at again.
-/

namespace Parley

namespace Line

/-- The line with other conditions, its own and those of all lines that it leads to. -/
def rejudged (judge : Line → Condition × String) (line : Line) : Line :=
  { line with
    condition := (judge line).1
    parameter := (judge line).2
    responses := line.responses.map (rejudged judge) }
termination_by sizeOf line
decreasing_by
  rename_i response hresponse
  have hsmaller := List.sizeOf_lt_of_mem hresponse
  cases line
  simp only [Line.mk.sizeOf_spec] at hsmaller ⊢
  omega

variable (judge : Line → Condition × String) (line : Line)

@[simp]
theorem text_rejudged : (line.rejudged judge).text = line.text := by
  rw [rejudged]

@[simp]
theorem action_rejudged : (line.rejudged judge).action = line.action := by
  rw [rejudged]

@[simp]
theorem responses_rejudged :
    (line.rejudged judge).responses = line.responses.map (rejudged judge) := by
  rw [rejudged]

@[simp]
theorem isLast_rejudged : (line.rejudged judge).isLast = line.isLast := by
  simp [isLast]

end Line

namespace Phase

/-- The phase with other conditions on the line that waits for a response. -/
def rejudged (judge : Line → Condition × String) : Phase → Phase
  | active line => active (line.rejudged judge)
  | phase => phase

theorem after_rejudged (judge : Line → Condition × String) (line : Line) :
    after (line.rejudged judge) = (after line).rejudged judge := by
  simp only [after, Line.isLast_rejudged]
  split <;> rfl

end Phase

namespace Session

variable {σ τ : Type}

def rejudged (judge : Line → Condition × String) (session : Session) : Session :=
  { session with phase := session.phase.rejudged judge }

end Session

namespace Turn

variable {σ : Type}

def rejudged (judge : Line → Condition × String) (turn : Turn σ) : Turn σ :=
  { turn with session := turn.session.rejudged judge }

/-- The call ended in the player's death. -/
def isFatal (turn : Turn σ) : Bool :=
  match turn.result with
  | .error (.playerDied _) => true
  | _ => false

end Turn

namespace Session

variable {σ τ : Type}

/-- The turns of calls made one after another, also after one that fails. -/
def replies (collaborators : Collaborators σ) (session : Session) (world : World σ) :
    List Move → List (Turn σ)
  | [] => []
  | move :: rest =>
    let turn := move.turn collaborators session world
    turn :: replies collaborators turn.session turn.world rest

section Conditions

variable {collaborators : Collaborators σ} (judge : Line → Condition × String)

theorem deliver_rejudged (session : Session) (world : World σ) (line : Line) :
    (session.rejudged judge).deliver collaborators world (line.rejudged judge) =
      (session.deliver collaborators world line).rejudged judge := by
  have hnpc : (session.rejudged judge).npc = session.npc := rfl
  simp only [deliver, Line.text_rejudged, Line.action_rejudged, hnpc]
  split
  · rfl
  · simp only [Turn.rejudged, rejudged, Phase.after_rejudged]

/-- Other conditions on the lines make no difference to a session that has begun. -/
theorem turn_rejudged {session : Session} (h : session.phase ≠ .selectingEntry) (world : World σ)
    (move : Move) :
    move.turn collaborators (session.rejudged judge) world =
      (move.turn collaborators session world).rejudged judge := by
  have hphase : (session.rejudged judge).phase = session.phase.rejudged judge := rfl
  cases move with
  | cancel => rfl
  | begin =>
    rw [Move.turn_begin, Move.turn_begin, begin, begin, hphase]
    cases hcases : session.phase with
    | selectingEntry => exact absurd hcases h
    | active line => rfl
    | terminated => rfl
  | advance selection =>
    rw [Move.turn_advance, Move.turn_advance, advance, advance, hphase]
    cases hcases : session.phase with
    | selectingEntry => exact absurd hcases h
    | terminated => rfl
    | active line =>
      cases selection with
      | leave => rfl
      | respond choice =>
        simp only [Phase.rejudged, Line.responses_rejudged, List.getElem?_map, List.length_map]
        cases line.responses[choice]? with
        | none => rfl
        | some response => exact deliver_rejudged judge session world response

theorem replies_rejudged {session : Session} (h : session.phase ≠ .selectingEntry)
    (world : World σ) (moves : List Move) :
    replies collaborators (session.rejudged judge) world moves =
      (replies collaborators session world moves).map (Turn.rejudged judge) := by
  induction moves generalizing session world with
  | nil => rfl
  | cons move rest ih =>
    have hnext := (kept_started collaborators).turn world move.operation h
    rw [replies, replies, List.map_cons, turn_rejudged judge h]
    exact congrArg _ (ih hnext _)

end Conditions

section Worlds

variable {collaborators : Collaborators σ} {collaborators' : Collaborators τ}

/-- The two turns have the same result and leave the session in the same state, and both say the
same, each in its own world. -/
structure SameCourse (world : World σ) (world' : World τ) (turn : Turn σ) (turn' : Turn τ) :
    Prop where
  result_eq : turn.result = turn'.result
  session_eq : turn.session = turn'.session
  notice_eq : turn.world.notice = turn'.world.notice
  said : ∃ said, turn.world.messages.toList = world.messages.toList ++ said ∧
    turn'.world.messages.toList = world'.messages.toList ++ said

/-- A call that leaves both worlds alone. -/
theorem SameCourse.refrain {world : World σ} {world' : World τ}
    (hnotice : world.notice = world'.notice) (result : Except SessionError Unit)
    (session : Session) :
    SameCourse world world' ⟨result, session, world⟩ ⟨result, session, world'⟩ :=
  ⟨rfl, rfl, hnotice, [], by simp⟩

theorem death?_of_not_isFatal {session : Session} {world : World σ} {line : Line}
    (h : ¬ (session.deliver collaborators world line).isFatal) :
    world.death? collaborators session.npc line = none := by
  rw [deliver_eq_told] at h
  split at h
  · exact absurd rfl h
  · assumption

theorem sameCourse_deliver {session : Session} {world : World σ} {world' : World τ} {line : Line}
    (hnotice : world.notice = world'.notice)
    (h : ¬ (session.deliver collaborators world line).isFatal)
    (h' : ¬ (session.deliver collaborators' world' line).isFatal) :
    SameCourse world world' (session.deliver collaborators world line)
      (session.deliver collaborators' world' line) := by
  have hsame : world.hostility session.npc = world'.hostility session.npc := by
    simp only [World.hostility, hnotice]
  rw [deliver_eq_told, deliver_eq_told, death?_of_not_isFatal h, death?_of_not_isFatal h']
  exact ⟨rfl, rfl, hnotice, _, World.toList_messages_told .., hsame ▸ World.toList_messages_told ..⟩

/-- A call on a session that has begun takes the same course in both worlds, unless the player dies
in one of them. -/
theorem sameCourse_turn {session : Session} (hbegun : session.phase ≠ .selectingEntry)
    {world : World σ} {world' : World τ} (hnotice : world.notice = world'.notice) (move : Move)
    (h : ¬ (move.turn collaborators session world).isFatal)
    (h' : ¬ (move.turn collaborators' session world').isFatal) :
    SameCourse world world' (move.turn collaborators session world)
      (move.turn collaborators' session world') := by
  cases move with
  | cancel => exact .refrain hnotice _ _
  | begin =>
    rw [Move.turn_begin, Move.turn_begin, begin, begin]
    cases hphase : session.phase with
    | selectingEntry => exact absurd hphase hbegun
    | active | terminated => exact .refrain hnotice _ _
  | advance selection =>
    rw [Move.turn_advance, advance] at h h'
    rw [Move.turn_advance, Move.turn_advance, advance, advance]
    cases hphase : session.phase with
    | selectingEntry => exact absurd hphase hbegun
    | terminated => exact .refrain hnotice _ _
    | active line =>
      cases selection with
      | leave => exact .refrain hnotice _ _
      | respond choice =>
        simp only [hphase] at h h' ⊢
        cases hresponse : line.responses[choice]? with
        | none => exact .refrain hnotice _ _
        | some response =>
          simp only [hresponse] at h h'
          exact sameCourse_deliver hnotice h h'

theorem SameCourse.extend {world middle : World σ} {world' middle' : World τ} {turn : Turn σ}
    {turn' : Turn τ} (h : SameCourse middle middle' turn turn') {said : List String}
    (hsaid : middle.messages.toList = world.messages.toList ++ said)
    (hsaid' : middle'.messages.toList = world'.messages.toList ++ said) :
    SameCourse world world' turn turn' := by
  obtain ⟨more, hmore, hmore'⟩ := h.said
  refine ⟨h.result_eq, h.session_eq, h.notice_eq, said ++ more, ?_, ?_⟩
  · rw [hmore, hsaid, List.append_assoc]
  · rw [hmore', hsaid', List.append_assoc]

theorem sameCourse_replies {session : Session} (hbegun : session.phase ≠ .selectingEntry)
    {world : World σ} {world' : World τ} (hnotice : world.notice = world'.notice)
    (moves : List Move)
    (h : ∀ turn ∈ replies collaborators session world moves, ¬ turn.isFatal)
    (h' : ∀ turn ∈ replies collaborators' session world' moves, ¬ turn.isFatal) :
    List.Forall₂ (SameCourse world world') (replies collaborators session world moves)
      (replies collaborators' session world' moves) := by
  -- The session may be over after the first call, but it has still begun, and that carries on.
  induction moves generalizing session world world' with
  | nil => exact .nil
  | cons move rest ih =>
    obtain ⟨hfirst, hrest⟩ := List.forall_mem_cons.mp h
    obtain ⟨hfirst', hrest'⟩ := List.forall_mem_cons.mp h'
    have hturn := sameCourse_turn hbegun hnotice move hfirst hfirst'
    have hnext := (kept_started collaborators).turn world move.operation hbegun
    obtain ⟨said, hsaid, hsaid'⟩ := hturn.said
    rw [← hturn.session_eq] at hrest'
    have hlater := ih hnext hturn.notice_eq hrest hrest'
    refine .cons hturn ?_
    rw [← hturn.session_eq]
    exact hlater.imp fun _ _ hsame => hsame.extend hsaid hsaid'

theorem result_ne_condition_of_begun {session : Session}
    (hbegun : session.phase ≠ .selectingEntry) (world : World σ) (moves : List Move) :
    ∀ turn ∈ replies collaborators session world moves, ∀ error,
      turn.result ≠ .error (.condition error) := by
  induction moves generalizing session world with
  | nil => exact fun _ hmem => absurd hmem List.not_mem_nil
  | cons move rest ih =>
    have hnext := (kept_started collaborators).turn world move.operation hbegun
    refine List.forall_mem_cons.mpr ⟨fun error herror => ?_, ih hnext _⟩
    obtain ⟨⟨-, hphase, -⟩, -⟩ := reason_of_error collaborators session world move herror
    exact hbegun hphase

/-- Once a session waits for an answer, the same calls take the same course in any two worlds with
the same notice, for as long as the player dies in neither. No call fails over a condition, and with
other conditions on the lines all calls come to the same. -/
theorem answers_alone_set_the_course (collaborators : Collaborators σ)
    (collaborators' : Collaborators τ) {session : Session} {line : Line}
    (hactive : session.phase = .active line) (world : World σ) (world' : World τ)
    (hnotice : world.notice = world'.notice) (moves : List Move)
    (h : ∀ turn ∈ replies collaborators session world moves, ¬ turn.isFatal)
    (h' : ∀ turn ∈ replies collaborators' session world' moves, ¬ turn.isFatal) :
    List.Forall₂ (SameCourse world world') (replies collaborators session world moves)
        (replies collaborators' session world' moves) ∧
      (∀ turn ∈ replies collaborators session world moves, ∀ error,
        turn.result ≠ .error (.condition error)) ∧
      ∀ judge, replies collaborators (session.rejudged judge) world moves =
        (replies collaborators session world moves).map (Turn.rejudged judge) := by
  have hbegun : session.phase ≠ .selectingEntry := by simp [hactive]
  refine ⟨sameCourse_replies hbegun hnotice moves h h', ?_, fun judge => ?_⟩
  · exact result_ne_condition_of_begun hbegun world moves
  · exact replies_rejudged judge hbegun world moves

end Worlds

/-- An ambush, out of which no condition could be judged any more. -/
def ambush : Line :=
  ⟨1, "", "Your money or your life!", .enemy, "", .nothing,
    [⟨2, "Never!", "Then die.", .level, "soon", .attack,
      [⟨3, "Farewell.", "Run, then.", .item, "boots", .trade, []⟩]⟩]⟩

def ambushed : Session :=
  ⟨Walk.guard, [], .active ambush⟩

/-- Another player, wounded and at another level, hears the same notice. -/
def wasteland : World Script :=
  { Walk.encampment with
    player := ⟨.nil, "Rogue", 1, "Bandit", ⟨7, 90⟩, .empty⟩
    messages := Messages.empty.offer "It is late."
    state := ⟨[3], [⟨[("boots", 1)], [], some 9, some "Recruit", none⟩]⟩ }

def sallies : List Move :=
  [.advance (.respond 4), .advance (.respond 0), .begin, .advance (.respond 0), .cancel]

theorem ambush_takes_the_same_course :
    (∀ turn ∈ replies Script.collaborators ambushed Walk.encampment sallies, ¬ turn.isFatal) ∧
      (∀ turn ∈ replies Script.collaborators ambushed wasteland sallies, ¬ turn.isFatal) ∧
      List.Forall₂ (SameCourse Walk.encampment wasteland)
        (replies Script.collaborators ambushed Walk.encampment sallies)
        (replies Script.collaborators ambushed wasteland sallies) ∧
      (replies Script.collaborators ambushed wasteland sallies).map
        (fun turn => turn.world.messages.waiting.size) = [1, 3, 3, 4, 4] := by
  have hlives : ∀ turn ∈ replies Script.collaborators ambushed Walk.encampment sallies,
      ¬ turn.isFatal := by decide +kernel
  have hlives' : ∀ turn ∈ replies Script.collaborators ambushed wasteland sallies,
      ¬ turn.isFatal := by decide +kernel
  have hactive : ambushed.phase = .active ambush := rfl
  have hcourse := answers_alone_set_the_course Script.collaborators Script.collaborators hactive
    Walk.encampment wasteland rfl sallies hlives hlives'
  exact ⟨hlives, hlives', hcourse.1, by decide +kernel⟩

end Session

end Parley
