import Parley.Proofs.Endings
import Parley.Proofs.Rehearsals

/-!
# Conversations replayed

A session only adds to the messages that wait, and never looks at them. So whatever source answers
in a conversation, its selections from a list lead to the same end, and the messages are the same
but for those that the source shows.
-/

namespace Parley

variable {σ τ : Type}

theorem Messages.offerAll_append (messages : Messages) (front back : List String) :
    messages.offerAll (front ++ back) = (messages.offerAll front).offerAll back :=
  List.foldl_append

/-- The source, with a list of its answers, each with the line that it was asked about. -/
def AnswerSource.logged (answers : AnswerSource τ) : AnswerSource (τ × List (Line × Answer τ)) where
  select := fun (source, log) line =>
    let answer := answers.select source line
    ⟨answer.selection, answer.messages, (answer.source, log ++ [(line, answer)])⟩

/-- The world with other messages waiting. -/
def World.withMessages (world : World σ) (messages : Messages) : World σ :=
  { world with messages }

def Turn.withMessages (turn : Turn σ) (messages : Messages) : Turn σ :=
  { turn with world := turn.world.withMessages messages }

theorem World.told_withMessages (world : World σ) (messages : Messages)
    (collaborators : Collaborators σ) (npc : Npc) (path : List Line) :
    (world.withMessages messages).told collaborators npc path =
      (world.told collaborators npc path).withMessages
        (messages.offerAll (path.flatMap (·.messages (world.hostility npc)))) := rfl

namespace Session

variable {collaborators : Collaborators σ} {answers : AnswerSource τ}

/-- What the session shows during a call. -/
def Move.said (session : Session) (world : World σ) (move : Move) : List String :=
  (move.delivered? session world).toList.flatMap (·.messages (world.hostility session.npc))

theorem deliver_withMessages (session : Session) (world : World σ) (messages : Messages)
    (line : Line) :
    session.deliver collaborators (world.withMessages messages) line =
      (session.deliver collaborators world line).withMessages
        (messages.offerAll (line.messages (world.hostility session.npc))) := by
  have hdeath : (world.withMessages messages).death? collaborators session.npc line =
      world.death? collaborators session.npc line := rfl
  rw [deliver_eq_told, deliver_eq_told, hdeath, World.told_withMessages, List.flatMap_singleton]
  cases world.death? collaborators session.npc line <;> rfl

/-- The messages that wait make no difference to a call, which adds the same to any of them. -/
theorem turn_withMessages (session : Session) (world : World σ) (messages : Messages)
    (move : Move) :
    move.turn collaborators session (world.withMessages messages) =
      (move.turn collaborators session world).withMessages
        (messages.offerAll (move.said session world)) := by
  cases move with
  | cancel => rfl
  | begin =>
    have hitem : (world.withMessages messages).item? = world.item? := rfl
    have hplayer : (world.withMessages messages).player = world.player := rfl
    rw [Move.turn_begin, Move.turn_begin, begin, begin, Move.said, Move.delivered?]
    cases session.phase with
    | active | terminated => rfl
    | selectingEntry =>
      simp only [hitem, hplayer]
      cases choose world.item? session.npc world.player session.entries with
      | error error => rfl
      | ok chosen =>
        cases chosen with
        | none => rfl
        | some line =>
          simpa using deliver_withMessages session world messages line
  | advance selection =>
    rw [Move.turn_advance, Move.turn_advance, advance, advance, Move.said]
    cases hphase : session.phase with
    | selectingEntry | terminated =>
      rw [Move.delivered?_advance_of_idle (by simp [hphase])]
      rfl
    | active line =>
      cases selection with
      | leave => rfl
      | respond choice =>
        simp only [Move.delivered?, options_of_active hphase]
        cases line.responses[choice]? with
        | none => rfl
        | some response =>
          simpa using deliver_withMessages session world messages response

theorem turn_exchange (session : Session) (world : World σ) (source : τ) (line : Line) :
    let answer := answers.select source line
    let move := Move.advance answer.selection
    (session.exchange collaborators answers world source line).turn =
      (move.turn collaborators session world).withMessages
        (world.messages.offerAll (answer.messages ++ move.said session world)) := by
  intro answer move
  rw [Messages.offerAll_append]
  exact turn_withMessages session world (world.messages.offerAll answer.messages) move

/-- How a conversation goes on to its end or to where it fails: the lines that the source is asked
about, each with its answer, and what it comes to. -/
inductive Held (collaborators : Collaborators σ) (answers : AnswerSource τ) :
    Session → World σ → τ → List (Line × Answer τ) → Turn σ × τ → Prop
  | idle {session : Session} {world : World σ} {source : τ}
      (hidle : ∀ line, session.phase ≠ .active line) :
    Held collaborators answers session world source [] (⟨.ok (), session, world⟩, source)
  | failed {session : Session} {world : World σ} {source : τ} {line : Line} {error : SessionError}
      (hline : session.phase = .active line)
      (herror : (session.exchange collaborators answers world source line).turn.result =
        .error error) :
    Held collaborators answers session world source [(line, answers.select source line)]
      ((session.exchange collaborators answers world source line).turn,
        (session.exchange collaborators answers world source line).source)
  | answered {session : Session} {world : World σ} {source : τ} {line : Line}
      {log : List (Line × Answer τ)} {result : Turn σ × τ} (hline : session.phase = .active line)
      (hok : (session.exchange collaborators answers world source line).turn.result = .ok ())
      (hrest : let next := session.exchange collaborators answers world source line
        Held collaborators answers next.turn.session next.turn.world next.source log result) :
    Held collaborators answers session world source ((line, answers.select source line) :: log)
      result

theorem held_converse (collaborators : Collaborators σ) (answers : AnswerSource τ)
    (session : Session) (world : World σ) (source : τ) :
    ∃ log, Held collaborators answers session world source log
      (converse collaborators answers session world source) := by
  fun_induction converse collaborators answers session world source with
  | case1 session world source line hline answer turn error herror =>
    exact ⟨_, .failed hline herror⟩
  | case2 session world source line hline answer turn hok ih =>
    obtain ⟨log, hrest⟩ := ih
    exact ⟨_, .answered hline hok hrest⟩
  | case3 session world source hidle => exact ⟨_, .idle hidle⟩

section Held

variable {session : Session} {world : World σ} {source : τ} {log : List (Line × Answer τ)}
  {result : Turn σ × τ}

/-- Keeping a list of the answers changes nothing else. -/
theorem Held.logged (h : Held collaborators answers session world source log result)
    (before : List (Line × Answer τ)) :
    converse collaborators answers.logged session world (source, before) =
      (result.1, result.2, before ++ log) := by
  -- Each answer is added to the list kept so far, so the list stays general in the induction.
  induction h generalizing before with
  | idle hidle => rw [converse_idle hidle, List.append_nil]
  | @failed session world source line error hline herror =>
    have hnext : session.exchange collaborators answers.logged world (source, before) line =
        let next := session.exchange collaborators answers world source line
        ⟨next.delivered, next.turn, next.source,
          before ++ [(line, answers.select source line)]⟩ := rfl
    rw [converse_eq_exchange hline, hnext]
    simp only [herror]
  | @answered session world source line log result hline hok hrest ih =>
    have hnext : session.exchange collaborators answers.logged world (source, before) line =
        let next := session.exchange collaborators answers world source line
        ⟨next.delivered, next.turn, next.source,
          before ++ [(line, answers.select source line)]⟩ := rfl
    rw [converse_eq_exchange hline, hnext]
    simp only [hok]
    rw [ih, List.append_assoc, List.singleton_append]

/-- The messages of a conversation: what the source shows with each answer, and then what the
session shows in reply to it. -/
def interleaved (log : List (Line × Answer τ)) (said : List (List String)) : List String :=
  (List.zipWith (fun question reply => question.2.messages ++ reply) log said).flatten

theorem interleaved_cons (question : Line × Answer τ) (log : List (Line × Answer τ))
    (reply : List String) (said : List (List String)) :
    interleaved (question :: log) (reply :: said) =
      (question.2.messages ++ reply) ++ interleaved log said := rfl

/-- With its selections given from a list, the conversation comes to the same, and shows the same
but for what the source shows. -/
structure Replayed (collaborators : Collaborators σ) (session : Session) (world : World σ)
    (log : List (Line × Answer τ)) (said : List (List String)) (turn : Turn σ) : Prop where
  length_eq : said.length = log.length
  messages_eq : turn.world.messages = world.messages.offerAll (interleaved log said)
  rehearsed : ∀ messages asked,
    (converse collaborators Rehearsed.source session (world.withMessages messages)
      ⟨log.map (·.2.selection), asked⟩).1 = turn.withMessages (messages.offerAll said.flatten)

theorem converse_rehearsed_withMessages {line : Line} (hline : session.phase = .active line)
    (world : World σ) (messages : Messages) (selection : Selection) (rest : List Selection)
    (asked : Nat) :
    converse collaborators Rehearsed.source session (world.withMessages messages)
        ⟨selection :: rest, asked⟩ =
      let move := Move.advance selection
      let turn := (move.turn collaborators session world).withMessages
        (messages.offerAll (move.said session world))
      match turn.result with
      | .error _ => (turn, ⟨rest, asked + 1⟩)
      | .ok () => converse collaborators Rehearsed.source turn.session turn.world
        ⟨rest, asked + 1⟩ := by
  rw [converse_rehearsed hline, List.headD_cons, ← Move.turn_advance, turn_withMessages]
  rfl

theorem replayed_failed {line : Line} {error : SessionError} (hline : session.phase = .active line)
    (herror : (session.exchange collaborators answers world source line).turn.result =
      .error error) :
    let answer := answers.select source line
    Replayed collaborators session world [(line, answer)]
      [(Move.advance answer.selection).said session world]
      (session.exchange collaborators answers world source line).turn := by
  intro answer
  rw [turn_exchange] at herror ⊢
  refine ⟨rfl, ?_, fun messages asked => ?_⟩
  · rw [interleaved_cons]
    exact congrArg world.messages.offerAll (List.append_nil _).symm
  · rw [List.map_singleton, converse_rehearsed_withMessages hline, List.flatten_singleton]
    dsimp only
    split
    · rfl
    · next hok => cases herror.symm.trans hok

theorem replayed_answered {line : Line} (hline : session.phase = .active line)
    (hok : (session.exchange collaborators answers world source line).turn.result = .ok ())
    {said : List (List String)} {turn : Turn σ}
    (hrest : let next := session.exchange collaborators answers world source line
      Replayed collaborators next.turn.session next.turn.world log said turn) :
    let answer := answers.select source line
    Replayed collaborators session world ((line, answer) :: log)
      ((Move.advance answer.selection).said session world :: said) turn := by
  intro answer
  dsimp only at hrest
  -- The source shows its messages before the call, which shows the session's after them.
  rw [turn_exchange] at hok hrest
  refine ⟨congrArg (· + 1) hrest.length_eq, ?_, fun messages asked => ?_⟩
  · rw [hrest.messages_eq, interleaved_cons]
    exact (Messages.offerAll_append world.messages _ _).symm
  · rw [List.map_cons, converse_rehearsed_withMessages hline, List.flatten_cons,
      Messages.offerAll_append]
    dsimp only
    split
    · next herror => cases hok.symm.trans herror
    · exact hrest.rehearsed _ (asked + 1)

theorem Held.replayed (h : Held collaborators answers session world source log result) :
    ∃ said, Replayed collaborators session world log said result.1 := by
  induction h with
  | idle hidle =>
    refine ⟨[], rfl, rfl, fun messages asked => ?_⟩
    rw [converse_idle hidle]
    rfl
  | failed hline herror => exact ⟨_, replayed_failed hline herror⟩
  | answered hline hok _ ih =>
    obtain ⟨said, hrest⟩ := ih
    exact ⟨_, replayed_answered hline hok hrest⟩

end Held

theorem run_eq_opened (collaborators : Collaborators σ) (answers : AnswerSource τ)
    (session : Session) (world : World σ) (source : τ) :
    run collaborators answers session world source =
      let turn := perform collaborators session world session.opening
      match turn.result with
      | .error _ => (turn, source)
      | .ok () => converse collaborators answers turn.session turn.world source := by
  by_cases hphase : session.phase = .selectingEntry
  · have hopening : session.opening = [.begin] := by rw [opening, hphase]
    simp only [run, hphase, hopening, perform, Move.turn_begin]
    cases hresult : (session.begin collaborators world).result with
    | error error => simp only [hresult]
    | ok => rfl
  · rw [run_resumes hphase, opening_of_started hphase]
    rfl

/-- What the session shows before the first question. -/
def greeting (session : Session) (world : World σ) : List String :=
  session.opening.flatMap (Move.said session world)

theorem opened_withMessages (session : Session) (world : World σ) (messages : Messages) :
    perform collaborators session (world.withMessages messages) session.opening =
      (perform collaborators session world session.opening).withMessages
        (messages.offerAll (session.greeting world)) := by
  rw [greeting, opening]
  split
  · simp only [perform, turn_withMessages, List.flatMap_singleton]
    cases hresult : (Move.begin.turn collaborators session world).result with
    | error error => simp only [Turn.withMessages, hresult]
    | ok => simp only [Turn.withMessages, hresult]
  · rfl

theorem messages_opened (collaborators : Collaborators σ) (session : Session) (world : World σ) :
    (perform collaborators session world session.opening).world.messages =
      world.messages.offerAll (session.greeting world) :=
  congrArg (·.world.messages) (opened_withMessages session world world.messages)

/-- How a run goes, which begins the session first if need be: the lines that the source is asked
about, each with its answer, and what it comes to. -/
inductive Runs (collaborators : Collaborators σ) (answers : AnswerSource τ) (session : Session)
    (world : World σ) (source : τ) : List (Line × Answer τ) → Turn σ × τ → Prop
  | unopened {error : SessionError}
      (herror : (perform collaborators session world session.opening).result = .error error) :
    Runs collaborators answers session world source []
      (perform collaborators session world session.opening, source)
  | opened {log : List (Line × Answer τ)} {result : Turn σ × τ}
      (hok : (perform collaborators session world session.opening).result = .ok ())
      (hheld : let turn := perform collaborators session world session.opening
        Held collaborators answers turn.session turn.world source log result) :
    Runs collaborators answers session world source log result

theorem runs_run (collaborators : Collaborators σ) (answers : AnswerSource τ) (session : Session)
    (world : World σ) (source : τ) :
    ∃ log, Runs collaborators answers session world source log
      (run collaborators answers session world source) := by
  rw [run_eq_opened]
  dsimp only
  split
  · next error herror => exact ⟨[], .unopened herror⟩
  · next hok =>
    obtain ⟨log, hheld⟩ := held_converse collaborators answers _ _ source
    exact ⟨log, .opened hok hheld⟩

section Runs

variable {session : Session} {world : World σ} {source : τ} {log : List (Line × Answer τ)}
  {result : Turn σ × τ}

theorem Runs.logged (h : Runs collaborators answers session world source log result) :
    run collaborators answers.logged session world (source, []) = (result.1, result.2, log) := by
  rw [run_eq_opened]
  cases h with
  | unopened herror => simp only [herror]
  | opened hok hheld =>
    simp only [hok]
    exact hheld.logged []

/-- A run comes to the same, and shows the same but for what the source shows, as the run with its
selections given from a list. -/
theorem Runs.replayed (h : Runs collaborators answers session world source log result) :
    ∃ said : List (List String), said.length = log.length ∧
      result.1.world.messages =
        world.messages.offerAll (session.greeting world ++ interleaved log said) ∧
      (run collaborators Rehearsed.source session world (.ofList (log.map (·.2.selection)))).1 =
        result.1.withMessages
          (world.messages.offerAll (session.greeting world ++ said.flatten)) := by
  rw [run_eq_opened]
  cases h with
  | unopened herror =>
    refine ⟨[], rfl, ?_, ?_⟩
    · rw [messages_opened]
      exact congrArg world.messages.offerAll (List.append_nil _).symm
    · simp only [herror, List.flatten_nil, List.append_nil]
      exact opened_withMessages session world world.messages
  | opened hok hheld =>
    obtain ⟨said, hreplayed⟩ := hheld.replayed
    refine ⟨said, hreplayed.length_eq, ?_, ?_⟩
    · rw [hreplayed.messages_eq, messages_opened, Messages.offerAll_append]
    · simp only [hok]
      refine (hreplayed.rehearsed _ 0).trans ?_
      rw [messages_opened, Messages.offerAll_append]

end Runs

end Session

end Parley
