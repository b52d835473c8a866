import Parley.Answer.Rehearsed
import Parley.Proofs.Failures

/-!
# Conversations with answers fixed in advance

Such a conversation comes to the same as its calls made by hand, one after another up to the first
that fails. If it breaks off at a response that is not there, it stands where that was chosen, and
can be taken up again as though it had not been.
-/

namespace Parley.Session

variable {σ : Type}

/-- Calls made one after another, up to the first that fails. -/
def perform (collaborators : Collaborators σ) (session : Session) (world : World σ) :
    List Move → Turn σ
  | [] => ⟨.ok (), session, world⟩
  | move :: rest =>
    let turn := move.turn collaborators session world
    match turn.result with
    | .error _ => turn
    | .ok () => perform collaborators turn.session turn.world rest

/-- The calls that are made in doing so, each with the session that it is made on. -/
def performed (collaborators : Collaborators σ) (session : Session) (world : World σ) :
    List Move → List (Session × Move)
  | [] => []
  | move :: rest =>
    let turn := move.turn collaborators session world
    (session, move) ::
      match turn.result with
      | .error _ => []
      | .ok () => performed collaborators turn.session turn.world rest

/-- The call answers a line that the session waits at. -/
def isAnswer : Session × Move → Bool
  | (session, .advance _) => session.phase.current?.isSome
  | _ => false

/-- How a session is started by hand, if it has not been. -/
def opening (session : Session) : List Move :=
  match session.phase with
  | .selectingEntry => [.begin]
  | _ => []

/-- Every answer given by hand, and then the leave taken. -/
def answering (selections : List Selection) : List Move :=
  (selections ++ [Selection.leave]).map Move.advance

variable {collaborators : Collaborators σ}

theorem perform_append (session : Session) (world : World σ) (front back : List Move) :
    perform collaborators session world (front ++ back) =
      let turn := perform collaborators session world front
      match turn.result with
      | .error _ => turn
      | .ok () => perform collaborators turn.session turn.world back := by
  induction front generalizing session world with
  | nil => rfl
  | cons move rest ih =>
    simp only [List.cons_append, perform]
    cases hresult : (move.turn collaborators session world).result with
    | error error => simp only [hresult]
    | ok => exact ih _ _

theorem perform_answering_of_terminated {session : Session} (h : session.phase = .terminated)
    (world : World σ) (selections : List Selection) :
    perform collaborators session world (answering selections) = ⟨.ok (), session, world⟩ := by
  rw [answering]
  induction selections ++ [Selection.leave] with
  | nil => rfl
  | cons selection rest ih =>
    simpa only [List.map_cons, perform, Move.turn_advance, advance, h] using ih

theorem countP_performed_of_terminated {session : Session} (h : session.phase = .terminated)
    (world : World σ) (selections : List Selection) :
    (performed collaborators session world (answering selections)).countP isAnswer = 0 := by
  rw [answering]
  induction selections ++ [Selection.leave] with
  | nil => rfl
  | cons selection rest ih =>
    simpa [performed, Move.turn_advance, advance, h, isAnswer, Phase.current?] using ih

/-- While the session waits, the next of the answers is given. -/
theorem converse_rehearsed {session : Session} {line : Line} (h : session.phase = .active line)
    (world : World σ) (selections : List Selection) (asked : Nat) :
    converse collaborators Rehearsed.source session world ⟨selections, asked⟩ =
      let turn := advance collaborators session world (selections.headD .leave)
      match turn.result with
      | .error _ => (turn, ⟨selections.tail, asked + 1⟩)
      | .ok () =>
        converse collaborators Rehearsed.source turn.session turn.world
          ⟨selections.tail, asked + 1⟩ :=
  converse_active h

/-- Holding the conversation with these answers comes to the same as giving them by hand and then
leaving, and takes as many answers as are given while the session waits. -/
structure Rehearses (collaborators : Collaborators σ) (session : Session) (world : World σ)
    (selections : List Selection) : Prop where
  turn_eq : ∀ asked,
    (converse collaborators Rehearsed.source session world ⟨selections, asked⟩).1 =
      perform collaborators session world (answering selections)
  asked_eq : ∀ asked,
    (converse collaborators Rehearsed.source session world ⟨selections, asked⟩).2.asked =
      asked + (performed collaborators session world (answering selections)).countP isAnswer

theorem rehearses_of_terminated {session : Session} (h : session.phase = .terminated)
    (world : World σ) (selections : List Selection) :
    Rehearses collaborators session world selections := by
  have hidle : ∀ line, session.phase ≠ .active line := by simp [h]
  refine ⟨fun asked => ?_, fun asked => ?_⟩
  · rw [converse_idle hidle, perform_answering_of_terminated h]
  · rw [converse_idle hidle, countP_performed_of_terminated h, Nat.add_zero]

theorem isAnswer_of_active {session : Session} {line : Line} (h : session.phase = .active line)
    (selection : Selection) : isAnswer (session, .advance selection) := by
  simp [isAnswer, h, Phase.current?]

theorem advance_leave {session : Session} {line : Line} (h : session.phase = .active line)
    (world : World σ) :
    session.advance collaborators world .leave = ⟨.ok (), session.terminate, world⟩ := by
  rw [advance, h]

theorem converse_terminate (answers : AnswerSource Rehearsed) (session : Session)
    (world : World σ) (source : Rehearsed) :
    converse collaborators answers session.terminate world source =
      (⟨.ok (), session.terminate, world⟩, source) :=
  converse_idle (by simp [terminate])

theorem rehearses_nil {session : Session} {line : Line} (h : session.phase = .active line)
    (world : World σ) : Rehearses collaborators session world [] := by
  have hmoves : answering [] = [.advance .leave] := rfl
  refine ⟨fun asked => ?_, fun asked => ?_⟩
  · rw [converse_rehearsed h, hmoves, perform, Move.turn_advance, List.headD_nil, advance_leave h]
    dsimp only
    rw [converse_terminate, perform]
  · rw [converse_rehearsed h, hmoves, performed, Move.turn_advance,
      List.countP_cons_of_pos (isAnswer_of_active h .leave), List.headD_nil, advance_leave h]
    dsimp only
    rw [converse_terminate, performed, List.countP_nil]

theorem rehearses_cons {session : Session} {line : Line} (h : session.phase = .active line)
    (world : World σ) (selection : Selection) (rest : List Selection)
    (hrest : let turn := session.advance collaborators world selection
      Rehearses collaborators turn.session turn.world rest) :
    Rehearses collaborators session world (selection :: rest) := by
  have hmoves : answering (selection :: rest) = .advance selection :: answering rest := rfl
  refine ⟨fun asked => ?_, fun asked => ?_⟩
  · rw [converse_rehearsed h, hmoves, perform, Move.turn_advance]
    dsimp only [List.headD_cons, List.tail_cons]
    split
    · rfl
    · exact hrest.turn_eq (asked + 1)
  · rw [converse_rehearsed h, hmoves, performed, Move.turn_advance,
      List.countP_cons_of_pos (isAnswer_of_active h selection)]
    dsimp only [List.headD_cons, List.tail_cons]
    split
    · rfl
    · rw [hrest.asked_eq (asked + 1), Nat.add_assoc, Nat.add_comm 1]

theorem rehearses_of_started {session : Session} (h : session.phase ≠ .selectingEntry)
    (world : World σ) (selections : List Selection) :
    Rehearses collaborators session world selections := by
  induction selections generalizing session world with
  | nil =>
    cases hphase : session.phase with
    | selectingEntry => exact absurd hphase h
    | active line => exact rehearses_nil hphase world
    | terminated => exact rehearses_of_terminated hphase world []
  | cons selection rest ih =>
    cases hphase : session.phase with
    | selectingEntry => exact absurd hphase h
    | active line =>
      have hturn := (kept_started collaborators).advance session world selection h
      exact rehearses_cons hphase world selection rest (ih hturn _)
    | terminated => exact rehearses_of_terminated hphase world (selection :: rest)

theorem opening_of_started {session : Session} (h : session.phase ≠ .selectingEntry) :
    session.opening = [] := by
  rw [opening]
  split
  · next hphase => exact absurd hphase h
  · rfl

/-- A run starts the session first, and then is the same by hand as what follows the start. -/
theorem run_eq_perform (session : Session) (world : World σ) (selections : List Selection)
    (asked : Nat) :
    let result := run collaborators Rehearsed.source session world ⟨selections, asked⟩
    let moves := session.opening ++ answering selections
    result.1 = perform collaborators session world moves ∧
      result.2.asked =
        asked + (performed collaborators session world moves).countP isAnswer := by
  by_cases hphase : session.phase = .selectingEntry
  · have hopening : session.opening = [.begin] := by rw [opening, hphase]
    have hanswer : ¬ isAnswer (session, .begin) := by simp [isAnswer]
    have hstarted := phase_begin_ne collaborators session world
    simp only [run, hphase, hopening, List.singleton_append, perform, performed,
      Move.turn_begin]
    rw [List.countP_cons_of_neg hanswer]
    generalize session.begin collaborators world = turn at hstarted ⊢
    cases hresult : turn.result with
    | error error => simp
    | ok =>
      have hrest : Rehearses collaborators turn.session turn.world selections :=
        rehearses_of_started hstarted turn.world selections
      exact ⟨hrest.turn_eq asked, hrest.asked_eq asked⟩
  · rw [run_resumes hphase, opening_of_started hphase, List.nil_append]
    have hall : Rehearses collaborators session world selections :=
      rehearses_of_started hphase world selections
    exact ⟨hall.turn_eq asked, hall.asked_eq asked⟩

/-- A conversation can only fail at a line that the session waits at. -/
theorem exists_active_of_error {session : Session} {world : World σ} {source : Rehearsed}
    {error : SessionError} {result : Turn σ × Rehearsed}
    (hresult : converse collaborators Rehearsed.source session world source = result)
    (h : result.1.result = .error error) : ∃ line, session.phase = .active line := by
  by_contra hidle
  rw [converse_idle (not_exists.mp hidle)] at hresult
  subst hresult
  cases h

/-- A choice of a response that is not there is made at a line that the answers before it lead to,
and the session still stands there. -/
theorem converse_refused {session : Session} {world : World σ} {selections : List Selection}
    {asked choice options : Nat} {result : Turn σ × Rehearsed}
    (hresult : converse collaborators Rehearsed.source session world ⟨selections, asked⟩ = result)
    (h : result.1.result = .error (.invalidSelection choice options)) :
    ∃ accepted rest line,
      selections = accepted ++ .respond choice :: rest ∧
        result.1.session.phase = .active line ∧
        perform collaborators session world (accepted.map Move.advance) =
          ⟨.ok (), result.1.session, result.1.world⟩ ∧
        result.2 = ⟨rest, asked + accepted.length + 1⟩ := by
  induction selections generalizing session world asked with
  | nil =>
    obtain ⟨line, hline⟩ := exists_active_of_error hresult h
    rw [converse_rehearsed hline, List.headD_nil, advance_leave hline] at hresult
    dsimp only at hresult
    rw [converse_terminate] at hresult
    subst hresult
    cases h
  | cons selection rest ih =>
    obtain ⟨line, hline⟩ := exists_active_of_error hresult h
    rw [converse_rehearsed hline] at hresult
    dsimp only [List.headD_cons, List.tail_cons] at hresult
    split at hresult
    · subst hresult
      obtain ⟨⟨hmove, -, -⟩, hsession, hworld⟩ :=
        reason_of_error collaborators session world (.advance selection) h
      obtain rfl := Move.advance.inj hmove
      rw [Move.turn_advance] at hsession hworld
      refine ⟨[], rest, line, rfl, ?_, ?_, rfl⟩
      · rw [hsession, hline]
      · rw [List.map_nil, perform, hsession, hworld]
    · next hok =>
      obtain ⟨accepted, rest, line, rfl, hline, hperform, hleft⟩ := ih hresult
      refine ⟨selection :: accepted, rest, line, rfl, hline, ?_, ?_⟩
      · rw [List.map_cons, perform, Move.turn_advance, hok]
        exact hperform
      · rw [hleft, List.length_cons, Nat.add_assoc asked 1, Nat.add_comm 1]

theorem run_refused {session : Session} {world : World σ} {selections : List Selection}
    {asked choice options : Nat} {result : Turn σ × Rehearsed}
    (hresult : run collaborators Rehearsed.source session world ⟨selections, asked⟩ = result)
    (h : result.1.result = .error (.invalidSelection choice options)) :
    ∃ accepted rest line,
      selections = accepted ++ .respond choice :: rest ∧
        result.1.session.phase = .active line ∧
        perform collaborators session world (session.opening ++ accepted.map Move.advance) =
          ⟨.ok (), result.1.session, result.1.world⟩ ∧
        result.2 = ⟨rest, asked + accepted.length + 1⟩ := by
  by_cases hphase : session.phase = .selectingEntry
  · have hopening : session.opening = [.begin] := by rw [opening, hphase]
    simp only [run, hphase] at hresult
    split at hresult
    · subst hresult
      obtain ⟨⟨hmove, -⟩, -⟩ := reason_of_error collaborators session world .begin h
      cases hmove
    · next hok =>
      obtain ⟨accepted, rest, line, heq, hline, hperform, hleft⟩ := converse_refused hresult h
      refine ⟨accepted, rest, line, heq, hline, ?_, hleft⟩
      rw [hopening, List.singleton_append, perform, Move.turn_begin, hok]
      exact hperform
  · rw [run_resumes hphase] at hresult
    rw [opening_of_started hphase]
    exact converse_refused hresult h

/-- A session that some answers lead to goes on with more answers as a run with all of them. -/
theorem run_of_perform {session next : Session} {world world' : World σ} {line : Line}
    {accepted : List Selection} (hline : next.phase = .active line)
    (h : perform collaborators session world (session.opening ++ accepted.map Move.advance) =
      ⟨.ok (), next, world'⟩) (more : List Selection) (asked : Nat) :
    (run collaborators Rehearsed.source next world' ⟨more, asked⟩).1 =
      (run collaborators Rehearsed.source session world (.ofList (accepted ++ more))).1 := by
  have hopening : next.opening = [] := opening_of_started (by simp [hline])
  have hmoves : session.opening ++ answering (accepted ++ more) =
      (session.opening ++ accepted.map Move.advance) ++ answering more := by
    simp [answering]
  rw [(run_eq_perform next world' more asked).1, hopening, List.nil_append, Rehearsed.ofList,
    (run_eq_perform session world (accepted ++ more) 0).1, hmoves, perform_append, h]

/-- A run with fixed answers comes to the same as its calls made by hand, and the source is asked as
often as answers are then given to a session that waits. When it breaks off at a response that is
not there, the session waits where the answers before have led it, and a second run goes on from
there as if that response had never been chosen. -/
theorem rehearsed_run_eq_by_hand (collaborators : Collaborators σ) (session : Session)
    (world : World σ) (selections : List Selection) :
    let (turn, left) := run collaborators Rehearsed.source session world (.ofList selections)
    let moves := session.opening ++ answering selections
    turn = perform collaborators session world moves ∧
      left.asked = (performed collaborators session world moves).countP isAnswer ∧
      ∀ choice options, turn.result = .error (.invalidSelection choice options) →
        ∃ accepted rest line,
          selections = accepted ++ .respond choice :: rest ∧
            turn.session.phase = .active line ∧
            perform collaborators session world (session.opening ++ accepted.map Move.advance) =
              ⟨.ok (), turn.session, turn.world⟩ ∧
            left = ⟨rest, accepted.length + 1⟩ ∧
            ∀ more asked,
              (run collaborators Rehearsed.source turn.session turn.world ⟨more, asked⟩).1 =
                (run collaborators Rehearsed.source session world
                  (.ofList (accepted ++ more))).1 := by
  obtain ⟨hturn, hasked⟩ := run_eq_perform session world selections 0
  rw [Nat.zero_add] at hasked
  refine ⟨hturn, hasked, fun choice options hrefused => ?_⟩
  obtain ⟨accepted, rest, line, heq, hline, hperform, hleft⟩ := run_refused rfl hrefused
  rw [Nat.zero_add] at hleft
  exact ⟨accepted, rest, line, heq, hline, hperform, hleft, run_of_perform hline hperform⟩

end Parley.Session
