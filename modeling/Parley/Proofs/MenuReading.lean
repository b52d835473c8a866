import Parley.Answer.Menu
import Parley.Proofs.Replays

/-!
# Conversations held over a menu

A menu reads the input line by line, and no further than the line that decides. It only selects what
it lists, so a conversation over a menu never fails at a selection, and it is the conversation that
the selections decoded from the input would lead to by themselves.
-/

namespace Parley

namespace Menu

theorem length_splitLine_snd_lt {input : List UInt8} (h : input ≠ []) :
    (splitLine input).2.length < input.length := by
  have hparts := congrArg List.length (splitLine_append input)
  have hpositive := List.length_pos_iff.mpr (splitLine_fst_ne_nil h)
  rw [List.length_append] at hparts
  omega

/-- The lines of the input, each with its newline if it has one. -/
def lines (input : List UInt8) : List (List UInt8) :=
  if _more : input = [] then [] else (splitLine input).1 :: lines (splitLine input).2
termination_by input.length
decreasing_by exact length_splitLine_snd_lt _more

@[simp]
theorem lines_nil : lines [] = [] := by
  rw [lines, dif_pos rfl]

theorem lines_of_ne_nil {input : List UInt8} (h : input ≠ []) :
    lines input = (splitLine input).1 :: lines (splitLine input).2 := by
  rw [lines, dif_neg h]

@[simp]
theorem flatten_lines (input : List UInt8) : (lines input).flatten = input := by
  fun_induction lines input with
  | case1 => rfl
  | case2 input hmore ih => rw [List.flatten_cons, ih, splitLine_append]

/-- What a line of input decides, if it decides anything. -/
def verdict (options : Nat) (line : List UInt8) : Option Selection :=
  match decode? line with
  | none => some .leave
  | some text => choice? options text

/-- The lines that are read for an answer: those passed over, and the one that decides, if the input
does not end before it. -/
structure Reading where
  passed : List (List UInt8)
  deciding : Option (List UInt8)

def Reading.lines (reading : Reading) : List (List UInt8) :=
  reading.passed ++ reading.deciding.toList

/-- The answer was read so: the lines passed over decide nothing, each of them is reminded of, and
the last line decides for the selection. The player leaves when the input ends. -/
structure Reading.Explains (reading : Reading) (options : Nat) (input : List UInt8)
    (selection : Selection) (reminders : List String) (unread : List UInt8) : Prop where
  lines_eq : Menu.lines input = reading.lines ++ Menu.lines unread
  passed : ∀ line ∈ reading.passed, verdict options line = none
  reminders_eq : reminders = List.replicate reading.passed.length (reminder options)
  decided : ∀ line ∈ reading.deciding, verdict options line = some selection
  exhausted : reading.deciding = none → selection = .leave ∧ unread = []

/-- One more line is passed over before the others. -/
theorem Reading.Explains.skip {reading : Reading} {options : Nat} {input unread : List UInt8}
    {selection : Selection} {reminders : List String}
    (h : reading.Explains options (splitLine input).2 selection reminders unread)
    (hmore : input ≠ []) (hundecided : verdict options (splitLine input).1 = none) :
    Reading.Explains ⟨(splitLine input).1 :: reading.passed, reading.deciding⟩ options input
      selection (reminder options :: reminders) unread where
  lines_eq := by
    rw [lines_of_ne_nil hmore, h.lines_eq]
    rfl
  passed := List.forall_mem_cons.mpr ⟨hundecided, h.passed⟩
  reminders_eq := congrArg (reminder options :: ·) h.reminders_eq
  decided := h.decided
  exhausted := h.exhausted

theorem exists_reading (options : Nat) (input : List UInt8) :
    let (selection, reminders, unread) := read options input
    ∃ reading : Reading, reading.Explains options input selection reminders unread := by
  fun_induction read options input with
  | case1 => exact ⟨⟨[], none⟩, by simp [Reading.lines], by simp, rfl, by simp, by simp⟩
  | case2 input hmore hdecode =>
    refine ⟨⟨[], some (splitLine input).1⟩, lines_of_ne_nil hmore, by simp, rfl, ?_, by simp⟩
    simp [verdict, hdecode]
  | case3 input hmore text hdecode selection hchoice =>
    refine ⟨⟨[], some (splitLine input).1⟩, lines_of_ne_nil hmore, by simp, rfl, ?_, by simp⟩
    simp [verdict, hdecode, hchoice]
  | case4 input hmore text hdecode hchoice selection reminders unread hread ih =>
    rw [hread] at ih
    obtain ⟨reading, hreading⟩ := ih
    exact ⟨_, hreading.skip hmore (by simp [verdict, hdecode, hchoice])⟩

theorem lt_of_choice? {options choice : Nat} {text : List Char}
    (h : choice? options text = some (.respond choice)) : choice < options := by
  rw [choice?] at h
  split at h
  · cases h
  · split at h
    · cases h
      omega
    · split at h <;> cases h

/-- A response that a line of input decides for is one of the menu. -/
theorem lt_of_verdict {options choice : Nat} {line : List UInt8}
    (h : verdict options line = some (.respond choice)) : choice < options := by
  rw [verdict] at h
  split at h
  · cases h
  · exact lt_of_choice? h

theorem Reading.Explains.lt {reading : Reading} {options choice : Nat}
    {input unread : List UInt8} {reminders : List String}
    (h : reading.Explains options input (.respond choice) reminders unread) :
    choice < options := by
  cases hdeciding : reading.deciding with
  | none => cases (h.exhausted hdeciding).1
  | some line => exact lt_of_verdict (h.decided line hdeciding)

/-- The menu answers a question about a line so: it lists the responses of the line, reads on where
it has stopped before, and shows the reminders. -/
def Reading.Answers (reading : Reading) (menu : Menu) (line : Line) (answer : Answer Menu) :
    Prop :=
  ∃ selection reminders unread,
    answer = ⟨selection, listing menu.exitLabel line ++ reminders, { menu with unread }⟩ ∧
      reading.Explains line.responses.length menu.unread selection reminders unread

theorem exists_answers (menu : Menu) (line : Line) :
    ∃ reading : Reading, reading.Answers menu line (source.select menu line) := by
  obtain ⟨reading, hreading⟩ := exists_reading line.responses.length menu.unread
  exact ⟨reading, _, _, _, rfl, hreading⟩

/-- The menu answers one question after another. -/
inductive Reads : Menu → List (Line × Answer Menu) → List Reading → Menu → Prop
  | done (menu : Menu) : Reads menu [] [] menu
  | next {menu left : Menu} {line : Line} {answer : Answer Menu}
      {log : List (Line × Answer Menu)} {reading : Reading} {readings : List Reading}
      (hreading : reading.Answers menu line answer)
      (hrest : Reads answer.source log readings left) :
    Reads menu ((line, answer) :: log) (reading :: readings) left

/-- What is read for all questions together is the front of the input. -/
theorem Reads.lines_eq {menu left : Menu} {log : List (Line × Answer Menu)}
    {readings : List Reading} (h : Reads menu log readings left) :
    lines menu.unread = readings.flatMap Reading.lines ++ lines left.unread := by
  induction h with
  | done => rfl
  | next hreading _ ih =>
    obtain ⟨selection, reminders, unread, rfl, hexplains⟩ := hreading
    rw [hexplains.lines_eq, ih, List.flatMap_cons, List.append_assoc]

end Menu

namespace Session

variable {σ : Type} {collaborators : Collaborators σ} {session : Session} {world : World σ}
  {menu : Menu} {log : List (Line × Answer Menu)} {result : Turn σ × Menu}

theorem Held.reads (h : Held collaborators Menu.source session world menu log result) :
    ∃ readings, Menu.Reads menu log readings result.2 := by
  induction h with
  | idle => exact ⟨[], .done _⟩
  | @failed _ _ menu line =>
    obtain ⟨reading, hreading⟩ := Menu.exists_answers menu line
    exact ⟨[reading], .next hreading (.done _)⟩
  | @answered _ _ menu line _ _ _ _ _ ih =>
    obtain ⟨reading, hreading⟩ := Menu.exists_answers menu line
    obtain ⟨readings, hrest⟩ := ih
    exact ⟨reading :: readings, .next hreading hrest⟩

theorem Runs.reads (h : Runs collaborators Menu.source session world menu log result) :
    ∃ readings, Menu.Reads menu log readings result.2 := by
  cases h with
  | unopened => exact ⟨[], .done menu⟩
  | opened _ hheld => exact hheld.reads

/-- A menu selects no response that the line does not have. -/
theorem exchange_ne_invalidSelection {line : Line} (hline : session.phase = .active line)
    (choice options : Nat) :
    (session.exchange collaborators Menu.source world menu line).turn.result ≠
      .error (.invalidSelection choice options) := by
  intro h
  obtain ⟨⟨hmove, -, hoptions, hle⟩, -⟩ := reason_of_error collaborators session _ _ h
  obtain ⟨reading, selection, reminders, unread, hanswer, hexplains⟩ :=
    Menu.exists_answers menu line
  rw [hanswer] at hmove
  obtain rfl := Move.advance.inj hmove
  have hlt := hexplains.lt
  rw [options_of_active hline] at hoptions
  omega

theorem Held.ne_invalidSelection
    (h : Held collaborators Menu.source session world menu log result) (choice options : Nat) :
    result.1.result ≠ .error (.invalidSelection choice options) := by
  induction h with
  | idle => simp
  | failed hline => exact exchange_ne_invalidSelection hline choice options
  | answered _ _ _ ih => exact ih

theorem opened_ne_invalidSelection (collaborators : Collaborators σ) (session : Session)
    (world : World σ) (choice options : Nat) :
    (perform collaborators session world session.opening).result ≠
      .error (.invalidSelection choice options) := by
  rw [opening]
  split
  · simp only [perform]
    split
    · intro h
      obtain ⟨⟨hmove, -⟩, -⟩ := reason_of_error collaborators session world .begin h
      cases hmove
    · simp
  · simp [perform]

theorem Runs.ne_invalidSelection
    (h : Runs collaborators Menu.source session world menu log result) (choice options : Nat) :
    result.1.result ≠ .error (.invalidSelection choice options) := by
  cases h with
  | unopened => exact opened_ne_invalidSelection collaborators session world choice options
  | opened _ hheld => exact hheld.ne_invalidSelection choice options

/-- A run over a menu never fails at a selection. It comes to the same as the run with the
selections that the menu has decoded, and shows the same but for the listings and reminders that the
menu shows for each question. The input is read line by line up to the line that decided last. -/
theorem menu_run_eq_rehearsed (collaborators : Collaborators σ) (session : Session)
    (world : World σ) (input : List UInt8) (exitLabel : String) :
    let menu : Menu := ⟨input, exitLabel⟩
    let (turn, left, log) := run collaborators Menu.source.logged session world (menu, [])
    let selections := log.map (·.2.selection)
    run collaborators Menu.source session world menu = (turn, left) ∧
      (∀ choice options, turn.result ≠ .error (.invalidSelection choice options)) ∧
      (∃ said : List (List String), said.length = log.length ∧
        turn.world.messages =
          world.messages.offerAll (session.greeting world ++ interleaved log said) ∧
        (run collaborators Rehearsed.source session world (.ofList selections)).1 =
          turn.withMessages
            (world.messages.offerAll (session.greeting world ++ said.flatten))) ∧
      ∃ readings, Menu.Reads menu log readings left ∧
        input = (readings.flatMap Menu.Reading.lines).flatten ++ left.unread := by
  obtain ⟨log, hruns⟩ := runs_run collaborators Menu.source session world ⟨input, exitLabel⟩
  dsimp only
  rw [hruns.logged]
  refine ⟨rfl, hruns.ne_invalidSelection, hruns.replayed, ?_⟩
  obtain ⟨readings, hreads⟩ := hruns.reads
  refine ⟨readings, hreads, ?_⟩
  have hlines := congrArg List.flatten hreads.lines_eq
  simpa using hlines

end Session

end Parley
