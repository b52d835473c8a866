import Parley.Proofs.MenuChoices

/-!
# Lines of input that are no text

A patient menu asks again after every line that names none of its numbers. It leaves only by the
number of the way out, or when there is no more input. But a line that is not UTF-8 is taken for the
end of the input. So a menu is patient as long as it comes to text only, and no longer.
-/

namespace Parley

namespace Menu

/-- The answer of a patient menu. There is a reminder for each line passed over, and the line that
decides names a number of the menu, unless the input ends before there is such a line. -/
inductive Patient (menu : Menu) (line : Line) : Answer Menu → Prop
  | decided {shown : List String} {passed : List (List UInt8)} {deciding unread : List UInt8}
    {number : Nat} (hshown : Shows menu.exitLabel line shown)
    (hcuts : Cuts menu.unread (passed ++ [deciding]) unread)
    (hpassed : ∀ segment ∈ passed, ∀ number, ¬Names line.responses.length segment number)
    (hnames : Names line.responses.length deciding number) :
    Patient menu line
      ⟨option line.responses.length number,
        shown ++ List.replicate passed.length (reminder line.responses.length),
        { menu with unread }⟩
  | ended {shown : List String} {passed : List (List UInt8)}
    (hshown : Shows menu.exitLabel line shown) (hcuts : Cuts menu.unread passed [])
    (hpassed : ∀ segment ∈ passed, ∀ number, ¬Names line.responses.length segment number) :
    Patient menu line
      ⟨.leave, shown ++ List.replicate passed.length (reminder line.responses.length),
        { menu with unread := [] }⟩

theorem isText_of_names {options number : Nat} {line : List UInt8} (h : Names options line number) :
    IsText line := by
  obtain ⟨-, text, hline, -⟩ := names_iff.mp h
  exact ⟨text, hline⟩

theorem isText_of_verdict {options : Nat} {line : List UInt8} (h : verdict options line = none) :
    IsText line := by
  by_contra htext
  rw [verdict_of_not_isText htext] at h
  cases h

namespace Reading.Explains

variable {reading : Reading} {menu : Menu} {line : Line} {options : Nat} {input unread : List UInt8}
  {selection : Selection} {reminders : List String}

theorem isRead (h : reading.Explains options input selection reminders unread)
    {deciding : List UInt8} (hdeciding : deciding ∈ reading.deciding) :
    IsRead options input deciding := by
  refine ⟨reading.passed, unread, ?_, h.not_names⟩
  have hcuts := h.cuts
  rwa [Reading.lines, Option.mem_def.mp hdeciding, Option.toList_some] at hcuts

/-- No line is read beyond the one that decides, and the lines before it are text. -/
theorem isText_of_isRead (h : reading.Explains options input selection reminders unread)
    (htext : ∀ deciding ∈ reading.deciding, IsText deciding) {segment : List UInt8}
    (hread : IsRead options input segment) : IsText segment := by
  have hpassed : ∀ earlier ∈ reading.passed, IsText earlier :=
    fun earlier hmem => isText_of_verdict (h.passed earlier hmem)
  obtain ⟨passed, rest, hcuts, hnone⟩ := hread
  have hlines : passed ++ [segment] ++ Menu.lines rest = reading.lines ++ Menu.lines unread :=
    hcuts.lines_eq.symm.trans h.lines_eq
  cases hdeciding : reading.deciding with
  | none =>
    obtain ⟨-, rfl⟩ := h.exhausted hdeciding
    simp only [Reading.lines, hdeciding, Option.toList_none, lines_nil, List.append_nil] at hlines
    exact hpassed segment (hlines ▸ by simp)
  | some deciding =>
    obtain ⟨number, hnames, -⟩ :=
      exists_names (htext deciding hdeciding) (h.decided deciding hdeciding)
    simp only [Reading.lines, hdeciding, Option.toList_some] at hlines
    -- Both lists begin the lines of the input, so one of them begins the other.
    rcases List.prefix_or_prefix_of_prefix ⟨_, hlines⟩ (List.prefix_append _ _) with hle | hle
    · have hmem : segment ∈ reading.passed ++ [deciding] := hle.subset (by simp)
      rcases List.mem_append.mp hmem with hearlier | hlast
      · exact hpassed segment hearlier
      · rw [List.mem_singleton.mp hlast]
        exact isText_of_names hnames
    · have hmem : deciding ∈ passed ++ [segment] := hle.subset (by simp)
      rcases List.mem_append.mp hmem with hearlier | hlast
      · exact absurd hnames (hnone deciding hearlier number)
      · rw [← List.mem_singleton.mp hlast]
        exact isText_of_names hnames

theorem patient (h : reading.Explains line.responses.length menu.unread selection reminders unread)
    (htext : ∀ deciding ∈ reading.deciding, IsText deciding) :
    Patient menu line
      ⟨selection, listing menu.exitLabel line ++ reminders, { menu with unread }⟩ := by
  have hshown := shows_listing menu.exitLabel line
  have hcuts := h.cuts
  rw [h.reminders_eq]
  cases hdeciding : reading.deciding with
  | none =>
    obtain ⟨rfl, rfl⟩ := h.exhausted hdeciding
    rw [Reading.lines, hdeciding, Option.toList_none, List.append_nil] at hcuts
    exact .ended hshown hcuts h.not_names
  | some deciding =>
    obtain ⟨number, hnames, rfl⟩ :=
      exists_names (htext deciding hdeciding) (h.decided deciding hdeciding)
    rw [Reading.lines, hdeciding, Option.toList_some] at hcuts
    exact .decided hshown hcuts h.not_names hnames

theorem isText_of_patient
    (h : reading.Explains line.responses.length menu.unread selection reminders unread)
    (hpatient : Patient menu line
      ⟨selection, listing menu.exitLabel line ++ reminders, { menu with unread }⟩) :
    ∀ deciding ∈ reading.deciding, IsText deciding := by
  generalize hanswer : (⟨selection, listing menu.exitLabel line ++ reminders,
    { menu with unread }⟩ : Answer Menu) = answer at hpatient
  intro deciding hmem
  cases hpatient with
  | @decided _ _ last _ _ hshown hcuts hpassed hnames =>
    obtain ⟨-, hmessages, hsource⟩ := Answer.mk.inj hanswer
    obtain ⟨rfl, -⟩ := Menu.mk.inj hsource
    have hlast : reading.deciding = some last := h.deciding_eq hshown hcuts hmessages
    obtain rfl := Option.some.inj (hmem.symm.trans hlast)
    exact isText_of_names hnames
  | @ended _ passed hshown hcuts hpassed =>
    obtain ⟨-, hmessages, hsource⟩ := Answer.mk.inj hanswer
    obtain ⟨rfl, -⟩ := Menu.mk.inj hsource
    have hcuts : Cuts menu.unread (passed ++ Option.toList none) [] := by
      rwa [Option.toList_none, List.append_nil]
    have hnone : reading.deciding = none := h.deciding_eq hshown hcuts hmessages
    cases hmem.symm.trans hnone

end Reading.Explains

theorem isText_of_patient {menu : Menu} {line : Line}
    (hpatient : Patient menu line (source.select menu line)) {segment : List UInt8}
    (hread : IsRead line.responses.length menu.unread segment) : IsText segment := by
  obtain ⟨reading, selection, reminders, unread, hanswer, hexplains⟩ := exists_answers menu line
  rw [hanswer] at hpatient
  exact hexplains.isText_of_isRead (hexplains.isText_of_patient hpatient) hread

theorem patient_of_isText {menu : Menu} {line : Line}
    (htext : ∀ segment, IsRead line.responses.length menu.unread segment → IsText segment) :
    Patient menu line (source.select menu line) := by
  obtain ⟨reading, selection, reminders, unread, hanswer, hexplains⟩ := exists_answers menu line
  rw [hanswer]
  exact hexplains.patient fun deciding hmem => htext deciding (hexplains.isRead hmem)

/-- A menu is patient exactly if the lines of its input are text, up to and including the first that
names a number. -/
theorem patient_iff_text_read (menu : Menu) (line : Line) :
    Patient menu line (source.select menu line) ↔
      ∀ segment, IsRead line.responses.length menu.unread segment → IsText segment :=
  ⟨fun hpatient _ hread => isText_of_patient hpatient hread, patient_of_isText⟩

/-- A byte that begins no character, and the first number of the menu on the next line. -/
def glitch : Menu :=
  ⟨[255, 10, 49, 10], "Leave"⟩

theorem glitch_leaves :
    (source.select glitch challenge).selection = .leave ∧
      (source.select glitch challenge).source.unread = [49, 10] ∧
      ¬Patient glitch challenge (source.select glitch challenge) := by
  refine ⟨by decide +kernel, by decide +kernel, fun hpatient => ?_⟩
  have hcuts : Cuts ([255] ++ 10 :: [49, 10]) [[255] ++ [10]] [49, 10] :=
    .next (by decide) (.done _)
  have hread : IsRead challenge.responses.length glitch.unread [255, 10] :=
    ⟨[], [49, 10], hcuts, by simp⟩
  have hnone : decode? [255, 10] = none := by decide +kernel
  exact decode?_eq_none_iff.mp hnone (isText_of_patient hpatient hread)

end Menu

end Parley
