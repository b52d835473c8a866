import Parley.Proofs.Deliveries

/-!
# How calls fail

An error arises from a call just when there is a reason for it, and each kind of error leaves a mark
of its own: a call that is refused changes nothing at all, a condition that cannot be judged ends
the session and changes nothing else, and the player's death ends it with one more line delivered.
-/

namespace Parley.Session

variable {σ : Type}

namespace Move

/-- The reason for an error of a call. -/
def Reason (collaborators : Collaborators σ) (session : Session) (world : World σ) (move : Move) :
    SessionError → Prop
  | .alreadyStarted => move = begin ∧ session.phase ≠ .selectingEntry
  | .notStarted => (∃ selection, move = advance selection) ∧ session.phase = .selectingEntry
  | .invalidSelection choice options =>
    move = advance (.respond choice) ∧ (∃ line, session.phase = .active line) ∧
      options = session.options.length ∧ options ≤ choice
  | .condition error =>
    move = begin ∧ session.phase = .selectingEntry ∧
      choose world.item? session.npc world.player session.entries = .error error
  | .playerDied death =>
    ∃ line, move.delivered? session world = some line ∧
      world.death? collaborators session.npc line = some death

/-- What the call leaves behind when it fails with an error. -/
def Leaves (collaborators : Collaborators σ) (session : Session) (world : World σ) (move : Move)
    (turn : Turn σ) : SessionError → Prop
  | .alreadyStarted | .notStarted | .invalidSelection _ _ =>
    turn.session = session ∧ turn.world = world
  | .condition _ => turn.session = session.terminate ∧ turn.world = world
  | .playerDied _ =>
    turn.session = session.terminate ∧
      ∃ line, move.delivered? session world = some line ∧
        turn.world = world.told collaborators session.npc [line] ∧
        turn.world.messages.toList =
          world.messages.toList ++ line.messages (world.hostility session.npc)

end Move

theorem death_of_deliver {collaborators : Collaborators σ} {session : Session} {world : World σ}
    {line : Line} {error : SessionError}
    (h : (session.deliver collaborators world line).result = .error error) :
    ∃ death, error = .playerDied death ∧
      world.death? collaborators session.npc line = some death ∧
      (session.deliver collaborators world line).session = session.terminate := by
  rw [deliver_eq_told] at h ⊢
  cases hdeath : world.death? collaborators session.npc line with
  | none =>
    rw [hdeath] at h
    cases h
  | some death =>
    rw [hdeath] at h
    obtain rfl := Except.error.inj h
    exact ⟨death, rfl, rfl, rfl⟩

variable (collaborators : Collaborators σ) (session : Session) (world : World σ) (move : Move)

theorem reason_of_error {error : SessionError}
    (h : (move.turn collaborators session world).result = .error error) :
    move.Reason collaborators session world error ∧
      move.Leaves collaborators session world (move.turn collaborators session world) error := by
  have houtcome := move.outcome_turn collaborators session world
  generalize move.turn collaborators session world = turn at houtcome h ⊢
  generalize hline : move.delivered? session world = line? at houtcome
  cases line? with
  | some line =>
    obtain ⟨rfl, -⟩ := houtcome.delivers
    obtain ⟨death, rfl, hdeath, hsession⟩ := death_of_deliver h
    refine ⟨⟨line, hline, hdeath⟩, hsession, line, hline, world_deliver .., ?_⟩
    simp
  | none =>
    cases houtcome with
    | silent | left | ended | cancelled => cases h
    | unjudged hphase hchoice =>
      cases h
      exact ⟨⟨rfl, hphase, hchoice⟩, rfl, rfl⟩
    | alreadyStarted hphase =>
      cases h
      exact ⟨⟨rfl, hphase⟩, rfl, rfl⟩
    | notStarted hphase =>
      cases h
      exact ⟨⟨⟨_, rfl⟩, hphase⟩, rfl, rfl⟩
    | unavailable hphase hchoice =>
      cases h
      have hoptions := congrArg List.length (options_of_active hphase)
      exact ⟨⟨rfl, ⟨_, hphase⟩, hoptions.symm, hchoice⟩, rfl, rfl⟩

theorem error_of_reason {error : SessionError}
    (h : move.Reason collaborators session world error) :
    (move.turn collaborators session world).result = .error error := by
  have houtcome := move.outcome_turn collaborators session world
  generalize move.turn collaborators session world = turn at houtcome ⊢
  cases error with
  | alreadyStarted =>
    obtain ⟨rfl, hphase⟩ := h
    generalize Move.begin.delivered? session world = line? at houtcome
    cases houtcome with
    | alreadyStarted => rfl
    | opened h | silent h | unjudged h => exact absurd h hphase
  | notStarted =>
    obtain ⟨⟨selection, rfl⟩, hphase⟩ := h
    generalize (Move.advance selection).delivered? session world = line? at houtcome
    cases houtcome with
    | notStarted => rfl
    | answered h | unavailable h | left h | ended h => cases hphase.symm.trans h
  | invalidSelection choice options =>
    obtain ⟨rfl, ⟨line, hphase⟩, rfl, hchoice⟩ := h
    rw [options_of_active hphase] at hchoice ⊢
    generalize (Move.advance (.respond choice)).delivered? session world = line? at houtcome
    cases houtcome with
    | unavailable h =>
      obtain rfl := Phase.active.inj (hphase.symm.trans h)
      rfl
    | answered h hresponse =>
      obtain rfl := Phase.active.inj (hphase.symm.trans h)
      rw [List.getElem?_eq_none hchoice] at hresponse
      cases hresponse
    | notStarted h | ended h => cases hphase.symm.trans h
  | condition error =>
    obtain ⟨rfl, hphase, hchoice⟩ := h
    generalize Move.begin.delivered? session world = line? at houtcome
    cases houtcome with
    | unjudged _ h =>
      cases hchoice.symm.trans h
      rfl
    | opened _ h | silent _ h => cases hchoice.symm.trans h
    | alreadyStarted h => exact absurd hphase h
  | playerDied death =>
    obtain ⟨line, hline, hdeath⟩ := h
    rw [hline] at houtcome
    obtain ⟨rfl, -⟩ := houtcome.delivers
    rw [deliver_eq_told, hdeath]

/-- A call fails with an error if and only if there is reason for it, and it leaves behind what
belongs to the error. -/
theorem call_fails_iff (error : SessionError) :
    let turn := move.turn collaborators session world
    (turn.result = .error error ↔ move.Reason collaborators session world error) ∧
      (turn.result = .error error → move.Leaves collaborators session world turn error) :=
  ⟨⟨fun h => (reason_of_error collaborators session world move h).1,
    error_of_reason collaborators session world move⟩,
    fun h => (reason_of_error collaborators session world move h).2⟩

end Parley.Session
