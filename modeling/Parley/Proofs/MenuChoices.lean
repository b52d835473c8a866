import Parley.Proofs.MenuReading
import Parley.Proofs.Spellings

/-!
# What a menu takes its input for

A menu shows every response under a number, from one on, and the way out under the next number. Of
the input it takes the first line that is one of these numbers, in any spelling and with any blanks
around it, and it shows a reminder for each line before. So every number that it shows is a number
that it reads, and for the option that it stands in front of.
-/

namespace Parley

namespace Menu

/-- The text in UTF-8. -/
def encode (text : List Char) : List UInt8 :=
  text.flatMap String.utf8EncodeChar

def IsText (line : List UInt8) : Prop :=
  ∃ text, line = encode text

theorem encode_append (front back : List Char) :
    encode (front ++ back) = encode front ++ encode back :=
  List.flatMap_append

theorem mk_encode (text : List Char) : ByteArray.mk (encode text).toArray = text.utf8Encode := by
  apply ByteArray.ext
  rw [List.utf8Encode, List.data_toByteArray]
  rfl

theorem decode?_eq_some_iff {line : List UInt8} {text : List Char} :
    decode? line = some text ↔ line = encode text := by
  constructor
  · intro h
    obtain ⟨chars, hchars, rfl⟩ := Option.map_eq_some_iff.mp h
    have hsome : (ByteArray.mk line.toArray).utf8Decode?.isSome := by
      rw [hchars]
      rfl
    have hbytes := ByteArray.utf8Encode_get_utf8Decode? (h := hsome)
    simp only [hchars, Option.get_some, ← mk_encode] at hbytes
    simpa using (ByteArray.mk.inj hbytes).symm
  · rintro rfl
    rw [decode?, mk_encode, List.utf8Decode?_utf8Encode]
    rfl

theorem encode_injective {text other : List Char} (h : encode text = encode other) :
    text = other := by
  have htext : decode? (encode other) = some text := decode?_eq_some_iff.mpr h.symm
  rw [decode?_eq_some_iff.mpr rfl] at htext
  exact (Option.some.inj htext).symm

theorem encode_ne_nil {text : List Char} (h : text ≠ []) : encode text ≠ [] := by
  intro hempty
  have hnil : encode text = encode [] := hempty
  exact h (encode_injective hnil)

theorem decode?_eq_none_iff {line : List UInt8} : decode? line = none ↔ ¬IsText line := by
  simp only [IsText, Option.eq_none_iff_forall_ne_some, ne_eq, decode?_eq_some_iff, not_exists]

/-- The bytes of a character are its code, if that is below 128, or they all are 128 or more. -/
theorem toNat_of_mem {c : Char} {byte : UInt8} (h : byte ∈ String.utf8EncodeChar c) :
    byte.toNat = c.toNat ∨ 128 ≤ byte.toNat := by
  unfold String.utf8EncodeChar at h
  dsimp only at h
  split at h
  · next hsmall =>
    rw [List.mem_singleton.mp h, UInt8.toNat_ofNat']
    exact .inl (Nat.mod_eq_of_lt (by omega))
  · refine .inr ?_
    split at h
    · simp only [List.mem_cons, List.not_mem_nil, or_false] at h
      rcases h with rfl | rfl <;> rw [UInt8.toNat_ofNat'] <;> omega
    · split at h <;> simp only [List.mem_cons, List.not_mem_nil, or_false] at h
      · rcases h with rfl | rfl | rfl <;> rw [UInt8.toNat_ofNat'] <;> omega
      · rcases h with rfl | rfl | rfl | rfl <;> rw [UInt8.toNat_ofNat'] <;> omega

theorem newline_notMem_encode {text : List Char} (h : '\n' ∉ text) : 10 ∉ encode text := by
  intro hmem
  obtain ⟨c, hc, hbyte⟩ := List.mem_flatMap.mp hmem
  have hten : (10 : UInt8).toNat = '\n'.toNat := rfl
  rcases toNat_of_mem hbyte with hcode | hlarge
  · obtain rfl : '\n' = c := Char.toNat_inj.mp (hten.symm.trans hcode)
    exact h hc
  · exact absurd hlarge (by decide)

/-- The input begins with these lines, each up to and including its newline, and goes on with the
bytes that are unread. A last line may lack the newline. -/
inductive Cuts : List UInt8 → List (List UInt8) → List UInt8 → Prop
  | done (input : List UInt8) : Cuts input [] input
  | last {body : List UInt8} (hbody : 10 ∉ body) (hsome : body ≠ []) : Cuts body [body] []
  | next {body rest unread : List UInt8} {lines : List (List UInt8)} (hbody : 10 ∉ body)
      (hrest : Cuts rest lines unread) :
      Cuts (body ++ 10 :: rest) ((body ++ [10]) :: lines) unread

theorem splitLine_of_notMem {body : List UInt8} (h : 10 ∉ body) : splitLine body = (body, []) := by
  induction body with
  | nil => rfl
  | cons byte body ih =>
    obtain ⟨hbyte, hbody⟩ := List.ne_and_not_mem_of_not_mem_cons h
    rw [splitLine, if_neg hbyte.symm, ih hbody]

theorem splitLine_append_newline {body : List UInt8} (h : 10 ∉ body) (rest : List UInt8) :
    splitLine (body ++ 10 :: rest) = (body ++ [10], rest) := by
  induction body with
  | nil => rfl
  | cons byte body ih =>
    obtain ⟨hbyte, hbody⟩ := List.ne_and_not_mem_of_not_mem_cons h
    rw [List.cons_append, splitLine, if_neg hbyte.symm, ih hbody]
    rfl

theorem Cuts.lines_eq {input unread : List UInt8} {cut : List (List UInt8)}
    (h : Cuts input cut unread) : lines input = cut ++ lines unread := by
  induction h with
  | done => rfl
  | last hbody hsome => simp [lines_of_ne_nil hsome, splitLine_of_notMem hbody]
  | next hbody _ ih =>
    rw [lines_of_ne_nil (by simp), splitLine_append_newline hbody, ih, List.cons_append]

theorem cuts_of_lines_eq {input unread : List UInt8} {cut : List (List UInt8)}
    (h : lines input = cut ++ lines unread) : Cuts input cut unread := by
  induction cut generalizing input with
  | nil =>
    -- Nothing is cut off, and the lines of two inputs are the same only if their bytes are.
    have hinput := congrArg List.flatten h
    rw [List.nil_append, flatten_lines, flatten_lines] at hinput
    exact hinput ▸ .done input
  | cons line cut ih =>
    have hmore : input ≠ [] := by
      rintro rfl
      simp at h
    rw [lines_of_ne_nil hmore, List.cons_append] at h
    obtain ⟨rfl, hrest⟩ := List.cons.inj h
    by_cases hnewline : 10 ∈ input
    · obtain ⟨body, rest, rfl, hbody⟩ := List.eq_append_cons_of_mem hnewline
      rw [splitLine_append_newline hbody] at hrest ⊢
      exact .next hbody (ih hrest)
    · rw [splitLine_of_notMem hnewline] at hrest ⊢
      rw [lines_nil] at hrest
      obtain ⟨rfl, hunread⟩ := List.append_eq_nil_iff.mp hrest.symm
      have hunread := congrArg List.flatten hunread
      rw [flatten_lines] at hunread
      exact hunread ▸ .last hnewline hmore

theorem splitLine_of_cuts {input line unread : List UInt8} (h : Cuts input [line] unread) :
    input ≠ [] ∧ splitLine input = (line, unread) := by
  cases h with
  | last hbody hsome => exact ⟨hsome, splitLine_of_notMem hbody⟩
  | next hbody hrest =>
    cases hrest with
    | done => exact ⟨by simp, splitLine_append_newline hbody _⟩

/-- A menu with this many responses has the number, and it is one of 64 bits. -/
structure HasNumber (options number : Nat) : Prop where
  pos : 1 ≤ number
  le : number ≤ options + 1
  fits : number < 18446744073709551616

/-- The option behind a number: the responses are numbered from one on, and the way out comes after
them. -/
def option (options number : Nat) : Selection :=
  if number ≤ options then .respond (number - 1) else .leave

theorem option_injective {options number other : Nat} (h : HasNumber options number)
    (hother : HasNumber options other) (heq : option options number = option options other) :
    number = other := by
  obtain ⟨hpos, hle, -⟩ := h
  obtain ⟨hpos', hle', -⟩ := hother
  unfold option at heq
  split at heq <;> split at heq
  · have hbehind := Selection.respond.inj heq
    omega
  · cases heq
  · cases heq
  · omega

/-- The line is UTF-8 for a number of the menu, in any spelling and with any blanks around it. -/
structure Names (options : Nat) (line : List UInt8) (number : Nat) : Prop where
  hasNumber : HasNumber options number
  spelled : ∃ front core back, line = encode (front ++ (core ++ back)) ∧
    Decimal.Spells core number ∧ (∀ c ∈ front, Blank.isBlank c = true) ∧
      ∀ c ∈ back, Blank.isBlank c = true

theorem choice?_eq_some_iff {options : Nat} {text : List Char} {selection : Selection} :
    choice? options text = some selection ↔
      ∃ number, HasNumber options number ∧ Decimal.Spells (Blank.trim text) number ∧
        selection = option options number := by
  rw [choice?]
  constructor
  · intro h
    split at h
    · cases h
    · next number hnumber =>
      obtain ⟨hspells, hfits⟩ := Decimal.natural?_eq_some_iff.mp hnumber
      split at h
      · next hresponse =>
        refine ⟨number, ⟨hresponse.1, by omega, hfits⟩, hspells, ?_⟩
        rw [option, if_pos hresponse.2, Option.some.inj h]
      · split at h
        · next hexit =>
          refine ⟨number, ⟨by omega, by omega, hfits⟩, hspells, ?_⟩
          rw [option, if_neg (by omega), Option.some.inj h]
        · cases h
  · rintro ⟨number, hnumber, hspells, rfl⟩
    have hword : Decimal.word64? (Blank.trim text) = some number :=
      Decimal.natural?_eq_some_iff.mpr ⟨hspells, hnumber.fits⟩
    rw [hword, option]
    dsimp only
    by_cases hresponse : number ≤ options
    · rw [if_pos ⟨hnumber.pos, hresponse⟩, if_pos hresponse]
    · have hexit : number = options + 1 :=
        Nat.le_antisymm hnumber.le (Nat.lt_of_not_le hresponse)
      rw [if_neg (fun h => hresponse h.2), if_pos hexit, if_neg hresponse]

theorem names_iff {options number : Nat} {line : List UInt8} :
    Names options line number ↔
      HasNumber options number ∧
        ∃ text, line = encode text ∧ Decimal.Spells (Blank.trim text) number := by
  constructor
  · rintro ⟨hnumber, front, core, back, hline, hspells, hfront, hback⟩
    refine ⟨hnumber, _, hline, ?_⟩
    rwa [Blank.trim_append hfront hback hspells.unblank]
  · rintro ⟨hnumber, text, hline, hspells⟩
    obtain ⟨front, back, htext, hfront, hback⟩ := Blank.exists_trim text
    exact ⟨hnumber, front, _, back, htext ▸ hline, hspells, hfront, hback⟩

theorem verdict_encode (options : Nat) (text : List Char) :
    verdict options (encode text) = choice? options text := by
  rw [verdict, decode?_eq_some_iff.mpr rfl]

theorem verdict_of_not_isText {options : Nat} {line : List UInt8} (h : ¬IsText line) :
    verdict options line = some .leave := by
  rw [verdict, decode?_eq_none_iff.mpr h]

theorem verdict_eq_some_of_names {options number : Nat} {line : List UInt8}
    (h : Names options line number) : verdict options line = some (option options number) := by
  obtain ⟨hnumber, text, rfl, hspells⟩ := names_iff.mp h
  rw [verdict_encode, choice?_eq_some_iff]
  exact ⟨number, hnumber, hspells, rfl⟩

theorem exists_names {options : Nat} {line : List UInt8} {selection : Selection}
    (htext : IsText line) (h : verdict options line = some selection) :
    ∃ number, Names options line number ∧ selection = option options number := by
  obtain ⟨text, rfl⟩ := htext
  rw [verdict_encode, choice?_eq_some_iff] at h
  obtain ⟨number, hnumber, hspells, hselection⟩ := h
  exact ⟨number, names_iff.mpr ⟨hnumber, text, rfl, hspells⟩, hselection⟩

theorem not_names_of_verdict {options : Nat} {line : List UInt8}
    (h : verdict options line = none) (number : Nat) : ¬Names options line number := by
  intro hnames
  rw [verdict_eq_some_of_names hnames] at h
  cases h

theorem Reading.Explains.cuts {reading : Reading} {options : Nat} {input unread : List UInt8}
    {selection : Selection} {reminders : List String}
    (h : reading.Explains options input selection reminders unread) :
    Cuts input reading.lines unread :=
  cuts_of_lines_eq h.lines_eq

/-- What the menu shows before it reads: the responses by what the player says, in their order and
under the numbers from one on, and the way out under the number after them. -/
structure Shows (exitLabel : String) (line : Line) (shown : List String) : Prop where
  length_eq : shown.length = line.responses.length + 1
  response : ∀ i response, line.responses[i]? = some response →
    shown[i]? = some (toString (i + 1) ++ ") " ++ response.prompt)
  exit : shown[line.responses.length]? =
    some (toString (line.responses.length + 1) ++ ") " ++ exitLabel)

theorem shows_listing (exitLabel : String) (line : Line) :
    Shows exitLabel line (listing exitLabel line) where
  length_eq := by simp [listing]
  response := by
    intro i response h
    obtain ⟨hlt, -⟩ := List.getElem?_eq_some_iff.mp h
    rw [listing, List.getElem?_append_left (by simpa using hlt), List.getElem?_map,
      List.getElem?_zipIdx, h]
    simp [item, Nat.add_comm]
  exit := by
    rw [listing, List.getElem?_append_right (by simp)]
    simp [item]

theorem Reading.Explains.not_names {reading : Reading} {options : Nat} {input unread : List UInt8}
    {selection : Selection} {reminders : List String}
    (h : reading.Explains options input selection reminders unread) :
    ∀ segment ∈ reading.passed, ∀ number, ¬Names options segment number :=
  fun segment hmem => not_names_of_verdict (h.passed segment hmem)

/-- The input and the messages of an answer tell the line that has decided, since there is a reminder
for each line before it. -/
theorem Reading.Explains.deciding_eq {reading : Reading} {line : Line}
    {input unread : List UInt8} {selection : Selection} {reminders : List String}
    (h : reading.Explains line.responses.length input selection reminders unread)
    {exitLabel : String} {shown : List String} (hshown : Shows exitLabel line shown)
    {passed : List (List UInt8)} {last : Option (List UInt8)}
    (hcuts : Cuts input (passed ++ last.toList) unread)
    (hmessages : listing exitLabel line ++ reminders =
      shown ++ List.replicate passed.length (reminder line.responses.length)) :
    reading.deciding = last := by
  have hlength := congrArg List.length hmessages
  rw [List.length_append, List.length_append, (shows_listing exitLabel line).length_eq,
    hshown.length_eq, h.reminders_eq, List.length_replicate, List.length_replicate] at hlength
  have hlines : reading.passed ++ reading.deciding.toList = passed ++ last.toList :=
    List.append_cancel_right (h.lines_eq.symm.trans hcuts.lines_eq)
  obtain ⟨-, hlast⟩ := List.append_inj hlines (Nat.add_left_cancel hlength)
  ext segment
  rw [← Option.mem_toList, hlast, Option.mem_toList]

/-- The line is read: no line before it names a number of the menu. -/
def IsRead (options : Nat) (input line : List UInt8) : Prop :=
  ∃ passed unread, Cuts input (passed ++ [line]) unread ∧
    ∀ earlier ∈ passed, ∀ number, ¬Names options earlier number

/-- A menu shows its options and then reads the input line by line, with a reminder for each line
that names none of its numbers. The first line that does decides for the option of this number, and
what is left of the input is what comes after that line. If there is no such line, the player leaves
and nothing is left. -/
theorem first_number_is_taken (menu : Menu) (line : Line)
    (htext : ∀ segment, IsRead line.responses.length menu.unread segment → IsText segment) :
    let options := line.responses.length
    ∃ selection shown passed unread,
      source.select menu line =
          ⟨selection, shown ++ List.replicate passed.length (reminder options),
            { menu with unread }⟩ ∧
        Shows menu.exitLabel line shown ∧
        (∀ segment ∈ passed, ∀ number, ¬Names options segment number) ∧
        ((∃ deciding number, Cuts menu.unread (passed ++ [deciding]) unread ∧
            Names options deciding number ∧ selection = option options number) ∨
          (Cuts menu.unread passed [] ∧ unread = [] ∧ selection = .leave)) := by
  intro options
  obtain ⟨⟨passed, deciding⟩, selection, reminders, unread, hanswer, hexplains⟩ :=
    exists_answers menu line
  have hpassed := hexplains.not_names
  have hcuts := hexplains.cuts
  refine ⟨selection, _, passed, unread, ?_, shows_listing menu.exitLabel line, hpassed, ?_⟩
  · rw [hanswer, hexplains.reminders_eq]
  · cases deciding with
    | none =>
      obtain ⟨rfl, rfl⟩ := hexplains.exhausted rfl
      exact .inr ⟨by simpa [Reading.lines] using hcuts, rfl, rfl⟩
    | some deciding =>
      have hread : IsRead options menu.unread deciding := ⟨passed, unread, hcuts, hpassed⟩
      obtain ⟨number, hnames, hselection⟩ :=
        exists_names (htext deciding hread) (hexplains.decided deciding rfl)
      exact .inl ⟨deciding, number, hcuts, hnames, hselection⟩

theorem IsRead.mem_lines {options : Nat} {input line : List UInt8}
    (h : IsRead options input line) : line ∈ lines input := by
  obtain ⟨passed, unread, hcuts, -⟩ := h
  simp [hcuts.lines_eq]

/-- A question with two responses. -/
def challenge : Line :=
  ⟨0, "", "Who goes there?", .unconditional, "", .nothing,
    [⟨1, "A friend.", "Pass.", .unconditional, "", .nothing, []⟩,
      ⟨2, "A foe.", "Then draw.", .unconditional, "", .attack, []⟩]⟩

/-- A word, a number that is none of the menu, the second number in another spelling, and more. -/
def stammer : Menu :=
  ⟨encode ['o', 'h', '\n', '\t', '9', '\n', '\u3000', '+', '0', '2', ' ', '\n', '1'], "Leave"⟩

theorem stammer_understood :
    (∀ segment, IsRead challenge.responses.length stammer.unread segment → IsText segment) ∧
      ∃ passed deciding unread, Cuts stammer.unread (passed ++ [deciding]) unread ∧
        Names 2 deciding 2 ∧ (∀ segment ∈ passed, ∀ number, ¬Names 2 segment number) ∧
        (source.select stammer challenge).selection = .respond 1 ∧
        (source.select stammer challenge).source.unread = unread := by
  have htext : ∀ segment, IsRead challenge.responses.length stammer.unread segment →
      IsText segment := by
    intro segment hread
    have hlines : ∀ line ∈ lines stammer.unread, (decode? line).isSome := by decide +kernel
    obtain ⟨text, hdecode⟩ := Option.isSome_iff_exists.mp (hlines segment hread.mem_lines)
    exact ⟨text, decode?_eq_some_iff.mp hdecode⟩
  have hsecond : (source.select stammer challenge).selection = option 2 2 := by decide +kernel
  refine ⟨htext, ?_⟩
  obtain ⟨selection, shown, passed, unread, hselect, -, hpassed, hdecided | hended⟩ :=
    first_number_is_taken stammer challenge htext
  · obtain ⟨deciding, number, hcuts, hnames, hoption⟩ := hdecided
    rw [hselect] at hsecond ⊢
    obtain rfl : number = 2 :=
      option_injective hnames.hasNumber ⟨by decide, by decide, by decide⟩ (hoption ▸ hsecond)
    exact ⟨passed, deciding, unread, hcuts, hnames, hpassed, hsecond, rfl⟩
  · obtain ⟨-, -, rfl⟩ := hended
    rw [hselect] at hsecond
    cases hsecond

theorem read_of_names {options number : Nat} {input line unread : List UInt8}
    (hcuts : Cuts input [line] unread) (hnames : Names options line number) :
    read options input = (option options number, [], unread) := by
  obtain ⟨hmore, hsplit⟩ := splitLine_of_cuts hcuts
  obtain ⟨-, text, rfl, -⟩ := names_iff.mp hnames
  have hchoice := verdict_eq_some_of_names hnames
  rw [verdict_encode] at hchoice
  rw [read, dif_neg hmore, hsplit, decode?_eq_some_iff.mpr rfl]
  simp only [hchoice]

theorem select_of_names {menu : Menu} {line : Line} {input segment unread : List UInt8}
    {number : Nat} (hcuts : Cuts input [segment] unread)
    (hnames : Names line.responses.length segment number) :
    source.select { menu with unread := input } line =
      ⟨option line.responses.length number, listing menu.exitLabel line, { menu with unread }⟩ := by
  simp only [source, select, read_of_names hcuts hnames, List.append_nil]

/-- A line of text ends with a newline or with the input. -/
theorem cuts_encode {text : List Char} {ending unread : List UInt8} (hsome : text ≠ [])
    (htext : '\n' ∉ text) (hending : ending = 10 :: unread ∨ ending = [] ∧ unread = []) :
    ∃ tail, (tail = [] ∨ tail = ['\n']) ∧
      Cuts (encode text ++ ending) [encode (text ++ tail)] unread := by
  have hbody := newline_notMem_encode htext
  rcases hending with rfl | ⟨rfl, rfl⟩
  · refine ⟨['\n'], .inr rfl, ?_⟩
    rw [encode_append]
    exact .next hbody (.done unread)
  · refine ⟨[], .inl rfl, ?_⟩
    rw [List.append_nil, List.append_nil]
    exact .last hbody (encode_ne_nil hsome)

/-- What is shown under a number begins with the number. -/
theorem Shows.exists_label {exitLabel : String} {line : Line} {shown : List String}
    (h : Shows exitLabel line shown) {number : Nat}
    (hnumber : HasNumber line.responses.length number) :
    ∃ label, shown[number - 1]? = some (toString number ++ ") " ++ label) := by
  obtain ⟨hpos, hle, -⟩ := hnumber
  rcases Nat.lt_or_eq_of_le hle with hlt | rfl
  · have hshown := h.response (number - 1) _ (List.getElem?_eq_getElem (by omega))
    rw [Nat.sub_add_cancel hpos] at hshown
    exact ⟨_, hshown⟩
  · exact ⟨exitLabel, h.exit⟩

/-- If a menu stops at a line of text, the lines before it being reminded of, the line names the
number of the option that is selected. -/
theorem names_of_select {menu : Menu} {line : Line} {number : Nat}
    (hnumber : HasNumber line.responses.length number) {passed : List (List UInt8)}
    {text : List Char} {unread : List UInt8}
    (hcuts : Cuts menu.unread (passed ++ [encode text]) unread)
    (hselect : source.select menu line =
      ⟨option line.responses.length number,
        listing menu.exitLabel line ++
          List.replicate passed.length (reminder line.responses.length),
        { menu with unread }⟩) :
    Names line.responses.length (encode text) number := by
  obtain ⟨reading, selection, reminders, unread', hanswer, hexplains⟩ := exists_answers menu line
  rw [hanswer] at hselect
  obtain ⟨rfl, hmessages, hsource⟩ := Answer.mk.inj hselect
  obtain ⟨rfl, -⟩ := Menu.mk.inj hsource
  have hdeciding : reading.deciding = some (encode text) :=
    hexplains.deciding_eq (shows_listing menu.exitLabel line) hcuts hmessages
  obtain ⟨other, hnames, hoption⟩ := exists_names ⟨text, rfl⟩ (hexplains.decided _ hdeciding)
  rwa [option_injective hnumber hnames.hasNumber hoption]

/-- Every number that a menu shows in front of an option is read for this option, with a plus sign
and zeros before it or without, and with any blanks around it. And a line of text is read for this
option only if it is such a spelling of the number once it is trimmed. -/
theorem shown_number_is_read (menu : Menu) (line : Line) {number : Nat}
    (hfits : line.responses.length + 1 < 18446744073709551616) (hpos : 1 ≤ number)
    (hle : number ≤ line.responses.length + 1) :
    let options := line.responses.length
    let shown := listing menu.exitLabel line
    let numeral := (toString number).toList
    (∃ label, shown[number - 1]? = some (String.ofList numeral ++ ") " ++ label)) ∧
      (∀ (sign front back : List Char) (zeros : Nat) (ending unread : List UInt8),
        (sign = [] ∨ sign = ['+']) →
          (∀ c ∈ front ++ back, Blank.isBlank c = true ∧ c ≠ '\n') →
          (ending = 10 :: unread ∨ ending = [] ∧ unread = []) →
          let text := front ++ (sign ++ (List.replicate zeros '0' ++ numeral) ++ back)
          source.select { menu with unread := encode text ++ ending } line =
            ⟨option options number, shown, { menu with unread }⟩) ∧
      ∀ (passed : List (List UInt8)) (text : List Char) (unread : List UInt8),
        Cuts menu.unread (passed ++ [encode text]) unread →
          source.select menu line =
            ⟨option options number, shown ++ List.replicate passed.length (reminder options),
              { menu with unread }⟩ →
          ∃ sign zeros, (sign = [] ∨ sign = ['+']) ∧
            Blank.trim text = sign ++ (List.replicate zeros '0' ++ numeral) := by
  intro options shown numeral
  have hnumber : HasNumber options number := ⟨hpos, hle, Nat.lt_of_le_of_lt hle hfits⟩
  have hnumeral : numeral = Nat.toDigits 10 number := by
    simp [numeral]
  refine ⟨?_, ?_, ?_⟩
  · have hlabel := (shows_listing menu.exitLabel line).exists_label hnumber
    rwa [← String.ofList_toList (s := toString number)] at hlabel
  · intro sign front back zeros ending unread hsign hblanks hending text
    obtain ⟨hfront, hback⟩ := List.forall_mem_append.mp hblanks
    have hspells : Decimal.Spells (sign ++ (List.replicate zeros '0' ++ numeral)) number :=
      Decimal.spells_iff.mpr ⟨sign, zeros, hsign, by rw [hnumeral]⟩
    have hnewline : '\n' ∉ text := by
      simp only [text, List.mem_append (s := front), List.mem_append (t := back), not_or]
      refine ⟨fun h => (hfront _ h).2 rfl, fun h => ?_, fun h => (hback _ h).2 rfl⟩
      exact absurd (hspells.unblank _ h) (by decide)
    have hsome : text ≠ [] := by
      simp [text, hnumeral, Nat.toDigits_ne_nil]
    obtain ⟨tail, htail, hcuts⟩ := cuts_encode hsome hnewline hending
    refine select_of_names hcuts ⟨hnumber, front, _, back ++ tail, ?_, hspells,
      fun c hc => (hfront c hc).1, ?_⟩
    · simp [text]
    · refine List.forall_mem_append.mpr ⟨fun c hc => (hback c hc).1, ?_⟩
      rcases htail with rfl | rfl <;> simp [Blank.isBlank, Blank.ranges]
  · intro passed text unread hcuts hselect
    obtain ⟨-, other, hother, hspells⟩ := names_iff.mp (names_of_select hnumber hcuts hselect)
    obtain rfl := encode_injective hother
    rw [hnumeral]
    exact Decimal.spells_iff.mp hspells

theorem farewell_read :
    challenge.responses.length + 1 < 18446744073709551616 ∧ 1 ≤ 3 ∧
      3 ≤ challenge.responses.length + 1 ∧
      source.select ⟨encode ['\u3000', '+', '0', '3', '\t'] ++ 10 :: [49], "Leave"⟩ challenge =
        ⟨.leave, listing "Leave" challenge, ⟨[49], "Leave"⟩⟩ := by
  have hblanks : ∀ c ∈ ['\u3000'] ++ ['\t'], Blank.isBlank c = true ∧ c ≠ '\n' :=
    List.forall_mem_append.mpr
      ⟨List.forall_mem_singleton.mpr (by decide), List.forall_mem_singleton.mpr (by decide)⟩
  have hread := (shown_number_is_read ⟨[], "Leave"⟩ challenge (by decide) (by decide : 1 ≤ 3)
    (by decide)).2.1 ['+'] ['\u3000'] ['\t'] 1 (10 :: [49]) [49] (.inr rfl) hblanks (.inl rfl)
  exact ⟨by decide, by decide, by decide, hread⟩

end Menu

end Parley
