import Parley.Conversation.Listing
import Parley.Proofs.Defects
import Mathlib.Data.List.Sort
import Mathlib.Logic.Equiv.Basic

/-!
# Renumbering records

A build looks at the number of a record only to find the record and to tell it from the others. If
the records that the entries lead to stand at other positions, and their responses are renumbered
with them, the build comes to the same with other numbers. The order of the positions matters only
for the entries.
-/

namespace Parley

def Record.renumbered (number : Nat → Nat) (record : Record) : Record :=
  { record with response := record.response.map number }

@[simp]
theorem Record.response_renumbered (number : Nat → Nat) (record : Record) :
    (record.renumbered number).response = record.response.map number := rfl

@[simp]
theorem Record.renumbered_id (record : Record) : record.renumbered id = record := by
  rw [renumbered, List.map_id]

namespace Line

/-- The line under another number, and all lines that it leads to. -/
def renumbered (number : Nat → Nat) (line : Line) : Line :=
  { line with
    index := number line.index
    responses := line.responses.map (renumbered number) }
termination_by sizeOf line
decreasing_by
  rename_i response hresponse
  exact Nat.lt_trans (List.sizeOf_lt_of_mem hresponse) (Conversation.sizeOf_responses_lt line)

@[simp]
theorem renumbered_id (line : Line) : line.renumbered id = line := by
  rw [renumbered]
  have hresponses : line.responses.map (renumbered id) = line.responses := by
    rw [← List.map_id line.responses, List.map_map]
    apply List.map_congr_left
    intro response hresponse
    have hsmaller := Nat.lt_trans (List.sizeOf_lt_of_mem hresponse)
      (Conversation.sizeOf_responses_lt line)
    exact renumbered_id response
  rw [hresponses]
  cases line
  rfl
termination_by sizeOf line

end Line

namespace BuildError

/-- The error with other numbers for the records. A response that is out of range is no record. -/
def renumbered (number : Nat → Nat) : BuildError → BuildError
  | noText index => noText (number index)
  | malformedLevel index parameter => malformedLevel (number index) parameter
  | responseOutOfRange index response size => responseOutOfRange (number index) response size
  | cyclicResponse index => cyclicResponse (number index)
  | unknownCondition token => unknownCondition token
  | unknownAction token => unknownAction token

@[simp]
theorem renumbered_id (e : BuildError) : e.renumbered id = e := by
  cases e <;> rfl

end BuildError

namespace Conversation

variable {records others : Array Record} {number : Nat → Nat}

/-- A result with other numbers in it, if `rename` renumbers a success. -/
def renumberedBy {α : Type} (number : Nat → Nat) (rename : α → α) :
    Except BuildError α → Except BuildError α
  | .ok result => .ok (rename result)
  | .error e => .error (e.renumbered number)

@[simp]
theorem renumberedBy_id {α : Type} {rename : α → α} (h : ∀ result, rename result = result)
    (result : Except BuildError α) : renumberedBy id rename result = result := by
  cases result with
  | error e => rw [renumberedBy, BuildError.renumbered_id]
  | ok result => rw [renumberedBy, h]

theorem assemble_renumbered (number : Nat → Nat) (index : Nat) (record : Record)
    (lines : List Line) :
    assemble (number index) (record.renumbered number) (lines.map (Line.renumbered number)) =
      renumberedBy number (Line.renumbered number) (assemble index record lines) := by
  simp only [assemble_eq, Record.renumbered]
  split
  · rfl
  · split
    · rfl
    · split
      · rfl
      · split
        · rfl
        · rw [renumberedBy, Line.renumbered]

/-- The records that entries lead to stand among `others` too, each at the number that it is given,
and respond with the same records. Only a response that is out of range keeps its number. -/
structure Carries (number : Nat → Nat) (records others : Array Record) : Prop where
  record : ∀ index, Reached records index →
    others[number index]? = some ((recordAt records index).renumbered number)
  injective : ∀ index other, Reached records index → Reached records other →
    number index = number other → index = other
  beyond : ∀ index, Reached records index → ∀ response ∈ (recordAt records index).response,
    records.size ≤ response → number response = response ∧ others.size = records.size

/-- A record that some entry leads to, and the position that it is carried to. -/
structure Moves (number : Nat → Nat) {records others : Array Record} (index : Fin records.size)
    (index' : Fin others.size) : Prop where
  reached : Reached records index
  number_eq : ↑index' = number index

namespace Carries

variable {index : Fin records.size} {index' : Fin others.size}

theorem biUnique (h : Carries number records others) :
    Relator.BiUnique (Moves number : Fin records.size → Fin others.size → Prop) := by
  constructor
  · intro index other index' hindex hother
    have heq := hindex.number_eq.symm.trans hother.number_eq
    exact h.injective index other hindex.reached hother.reached heq
  · intro index index' other' hindex hother
    exact Fin.ext (hindex.number_eq.trans hother.number_eq.symm)

theorem recordAt_eq (h : Carries number records others) (hmoves : Moves number index index') :
    recordAt others index' = (recordAt records index).renumbered number := by
  have hrecord := h.record index hmoves.reached
  rw [← hmoves.number_eq] at hrecord
  exact Option.some.inj ((Array.getElem?_eq_getElem index'.isLt).symm.trans hrecord)

theorem exists_moves (h : Carries number records others) (hindex : Reached records index) :
    ∃ hinside : number index < others.size, Moves number index ⟨number index, hinside⟩ := by
  have hrecord := h.record index hindex
  obtain ⟨hinside, -⟩ := Array.getElem?_eq_some_iff.mp hrecord
  exact ⟨hinside, hindex, rfl⟩

/-- Resolving the responses of a record comes to the same under other numbers, if resolving each of
them does. -/
theorem resolveAll_renumbered (h : Carries number records others)
    (hmoves : Moves number index index') {path : List (Fin records.size)}
    {path' : List (Fin others.size)} (hpath : List.Forall₂ (Moves number) path path')
    (hlines : ∀ next (hfresh : next ∉ path) (next' : Fin others.size) (hfresh' : next' ∉ path'),
      Moves number next next' →
        resolve others next' path' hfresh' =
          renumberedBy number (Line.renumbered number) (resolve records next path hfresh))
    {responses : List Nat}
    (hresponses : ∀ response ∈ responses, response ∈ (recordAt records index).response) :
    resolveAll others index' path' (responses.map number) =
      renumberedBy number (List.map (Line.renumbered number))
        (resolveAll records index path responses) := by
  induction responses with
  | nil =>
    rw [List.map_nil, resolveAll, resolveAll]
    rfl
  | cons response rest ih =>
    obtain ⟨hresponse, hrest⟩ := List.forall_mem_cons.mp hresponses
    rw [List.map_cons, resolveAll, resolveAll]
    by_cases hinside : response < records.size
    · have hlink : Links records index ⟨response, hinside⟩ := hresponse
      obtain ⟨hinside', hnext⟩ := h.exists_moves (hmoves.reached.link hlink)
      -- No two records share a number, so one side finds a cycle exactly when the other does.
      have hmem := List.rel_mem h.biUnique hnext hpath
      rw [dif_pos hinside, dif_pos hinside']
      by_cases hfresh : ⟨response, hinside⟩ ∈ path
      · rw [dif_neg (not_not_intro hfresh), dif_neg (not_not_intro (hmem.mp hfresh))]
        rfl
      · have hfresh' := mt hmem.mpr hfresh
        rw [dif_pos hfresh, dif_pos hfresh', hlines _ hfresh _ hfresh' hnext, ih hrest]
        cases resolve records ⟨response, hinside⟩ path hfresh with
        | error e => rfl
        | ok line => cases resolveAll records index path rest <;> rfl
    · obtain ⟨hkept, hsize⟩ :=
        h.beyond index hmoves.reached response hresponse (Nat.le_of_not_lt hinside)
      have houtside : ¬ number response < others.size := by rwa [hkept, hsize]
      rw [dif_neg hinside, dif_neg houtside, hmoves.number_eq, hkept]
      simp only [hsize]
      rfl

theorem resolve_renumbered (h : Carries number records others)
    (hmoves : Moves number index index') {path : List (Fin records.size)}
    {path' : List (Fin others.size)} (hpath : List.Forall₂ (Moves number) path path')
    {hfresh : index ∉ path} {hfresh' : index' ∉ path'} :
    resolve others index' path' hfresh' =
      renumberedBy number (Line.renumbered number) (resolve records index path hfresh) := by
  induction index, path, hfresh using path_induction generalizing index' path' with
  | hstep index path hfresh ih =>
    have hlonger : List.Forall₂ (Moves number) (index :: path) (index' :: path') :=
      .cons hmoves hpath
    have hall := h.resolveAll_renumbered hmoves hlonger
      (fun next hnext next' hnext' hnextMoves => ih next hnext hnextMoves hlonger)
      (fun _ hresponse => hresponse)
    rw [resolve_eq, resolve_eq, h.recordAt_eq hmoves, Record.response_renumbered, hall,
      hmoves.number_eq]
    cases resolveAll records index (index :: path) (recordAt records index).response with
    | error e => rfl
    | ok lines => exact assemble_renumbered number index (recordAt records index) lines

end Carries

theorem mapM_renumbered {α β γ : Type} {rename : γ → γ} {f : α → Except BuildError γ}
    {f' : β → Except BuildError γ} {xs : List α} {ys : List β}
    (h : List.Forall₂ (fun x y => f' y = renumberedBy number rename (f x)) xs ys) :
    ys.mapM f' = renumberedBy number (List.map rename) (xs.mapM f) := by
  induction h with
  | nil => rfl
  | @cons x y xs ys hhead _ ih =>
    rw [List.mapM_cons, List.mapM_cons, hhead, ih]
    cases f x with
    | error e => rfl
    | ok line => cases xs.mapM f <;> rfl

/-- Carrying records over renumbers what their build comes to, if the entries stay in order. -/
theorem build_carried (h : Carries number records others)
    (hentries : List.Forall₂ (Moves number) (entries records) (entries others)) :
    build others = renumberedBy number (List.map (Line.renumbered number)) (build records) := by
  rw [build, build, linesAt_eq_mapM (quiet_blank others), linesAt_eq_mapM (quiet_blank records)]
  apply mapM_renumbered
  apply hentries.imp
  intro entry entry' hmoves
  exact h.resolve_renumbered hmoves .nil

/-- At this position stands a record that opens the conversation. -/
def EntryAt (records : Array Record) (position : Nat) : Prop :=
  ∃ record, records[position]? = some record ∧ record.player = ""

theorem entryAt_iff {position : Nat} :
    EntryAt records position ↔ ∃ entry ∈ entries records, ↑entry = position := by
  constructor
  · rintro ⟨record, hrecord, hplayer⟩
    obtain ⟨hinside, rfl⟩ := Array.getElem?_eq_some_iff.mp hrecord
    exact ⟨⟨position, hinside⟩, mem_entries.mpr hplayer, rfl⟩
  · rintro ⟨entry, hentry, rfl⟩
    exact ⟨recordAt records entry, Array.getElem?_eq_getElem entry.isLt, mem_entries.mp hentry⟩

theorem moves_entries
    (hsame : ∀ position,
      EntryAt others position ↔ ∃ entry ∈ entries records, number entry = position)
    (horder : ∀ entry ∈ entries records, ∀ later ∈ entries records,
      entry < later → number entry < number later) :
    List.Forall₂ (Moves number) (entries records) (entries others) := by
  let place : Fin records.size → Nat := fun entry => number entry
  have hsorted : ((entries records).map place).Pairwise (· < ·) := by
    have hentries := List.pairwise_map.mp (pairwise_entries records)
    apply List.pairwise_map.mpr
    exact hentries.imp_of_mem fun hentry hlater hless => horder _ hentry _ hlater hless
  have hplaces : (entries records).map place = (entries others).map Fin.val := by
    apply hsorted.eq_of_mem_iff (pairwise_entries others)
    intro position
    rw [List.mem_map, List.mem_map, ← entryAt_iff, hsame]
  have hnumbers : List.Forall₂ (fun entry (entry' : Fin others.size) => place entry = entry')
      (entries records) (entries others) := by
    have hequal : List.Forall₂ (· = ·) ((entries records).map place)
        ((entries others).map Fin.val) := by
      rw [List.forall₂_eq_eq_eq]
      exact hplaces
    exact List.forall₂_map_right_iff.mp (List.forall₂_map_left_iff.mp hequal)
  have hmoves := (List.forall₂_and_left _ _).mpr
    ⟨fun entry hentry => reached_of_mem_entries hentry, hnumbers⟩
  apply hmoves.imp
  rintro entry entry' ⟨hreached, hnumber⟩
  exact ⟨hreached, hnumber.symm⟩

/-- The number of a record after a permutation. What is out of range is no record, and keeps its
number. -/
def newNumber {size : Nat} (order : Equiv.Perm (Fin size)) (index : Nat) : Nat :=
  if hinside : index < size then order ⟨index, hinside⟩ else index

@[simp]
theorem newNumber_val {size : Nat} (order : Equiv.Perm (Fin size)) (index : Fin size) :
    newNumber order index = order index :=
  dif_pos index.isLt

theorem newNumber_of_le {size : Nat} (order : Equiv.Perm (Fin size)) {index : Nat}
    (h : size ≤ index) : newNumber order index = index :=
  dif_neg (Nat.not_lt.mpr h)

/-- Every record moved to its new position, and its responses renumbered. -/
def permuted (records : Array Record) (order : Equiv.Perm (Fin records.size)) : Array Record :=
  Array.ofFn fun position => (recordAt records (order.symm position)).renumbered (newNumber order)

theorem getElem?_permuted (records : Array Record) (order : Equiv.Perm (Fin records.size))
    (index : Fin records.size) :
    (permuted records order)[(order index).val]? =
      some ((recordAt records index).renumbered (newNumber order)) := by
  have hinside : (order index).val < (permuted records order).size := by
    rw [permuted, Array.size_ofFn]
    exact (order index).isLt
  rw [Array.getElem?_eq_getElem hinside]
  simp [permuted]

theorem carries_permuted (records : Array Record) (order : Equiv.Perm (Fin records.size)) :
    Carries (newNumber order) records (permuted records order) := by
  constructor
  · intro index _
    rw [newNumber_val, getElem?_permuted]
  · intro index other _ _ heq
    rw [newNumber_val, newNumber_val] at heq
    exact order.injective (Fin.ext heq)
  · intro index _ response _ houtside
    exact ⟨newNumber_of_le order houtside, Array.size_ofFn⟩

theorem entryAt_permuted (records : Array Record) (order : Equiv.Perm (Fin records.size))
    (position : Nat) :
    EntryAt (permuted records order) position ↔
      ∃ entry ∈ entries records, newNumber order entry = position := by
  constructor
  · rintro ⟨record, hrecord, hplayer⟩
    obtain ⟨hinside, -⟩ := Array.getElem?_eq_some_iff.mp hrecord
    rw [permuted, Array.size_ofFn] at hinside
    obtain ⟨index, hindex⟩ := order.surjective ⟨position, hinside⟩
    have hposition : (order index).val = position := congrArg Fin.val hindex
    rw [← hposition, getElem?_permuted] at hrecord
    obtain rfl := Option.some.inj hrecord
    exact ⟨index, mem_entries.mpr hplayer, (newNumber_val order index).trans hposition⟩
  · rintro ⟨entry, hentry, rfl⟩
    rw [newNumber_val]
    exact ⟨_, getElem?_permuted records order entry, mem_entries.mp hentry⟩

/-- Moving the records to other positions, with the entries in the same order, changes nothing of
what their build comes to but the numbers of the records. -/
theorem build_permuted (records : Array Record) (order : Equiv.Perm (Fin records.size))
    (h : ∀ entry later, (recordAt records entry).player = "" →
      (recordAt records later).player = "" → entry < later → order entry < order later) :
    build (permuted records order) =
      renumberedBy (newNumber order) (List.map (Line.renumbered (newNumber order)))
        (build records) := by
  apply build_carried (carries_permuted records order)
  apply moves_entries (entryAt_permuted records order)
  intro entry hentry later hlater hless
  rw [newNumber_val, newNumber_val]
  exact h entry later (mem_entries.mp hentry) (mem_entries.mp hlater) hless

/-- The first two records of the crossroads change places, and so do the last two. -/
def detour : Equiv.Perm (Fin crossroads.size) :=
  (Equiv.swap ⟨0, by decide⟩ ⟨1, by decide⟩).trans (Equiv.swap ⟨3, by decide⟩ ⟨4, by decide⟩)

/-- The first three records of the carousel change places, and its entries stay in order. -/
def rotation : Equiv.Perm (Fin carousel.size) :=
  (Equiv.swap ⟨1, by decide⟩ ⟨2, by decide⟩).trans (Equiv.swap ⟨0, by decide⟩ ⟨1, by decide⟩)

/-- The lines of the crossroads come out with other numbers, and so does the error of the
carousel. -/
theorem crossroads_detoured :
    (∀ entry later, (recordAt crossroads entry).player = "" →
      (recordAt crossroads later).player = "" → entry < later → detour entry < detour later) ∧
      (let last : Line := ⟨4, "", "Farewell.", .item, "lamp", .nothing, []⟩
      build (permuted crossroads detour) = .ok
        [⟨1, "", "Which way?", .level, "5", .nothing,
          [⟨0, "Left.", "Left it is.", .unconditional, "", .attack, [last]⟩,
            ⟨2, "Right.", "Right it is.", .unconditional, "", .trade, [last, last]⟩]⟩, last]) ∧
      (∀ entry later, (recordAt carousel entry).player = "" →
        (recordAt carousel later).player = "" → entry < later →
        rotation entry < rotation later) ∧
      build (permuted carousel rotation) = .error (.cyclicResponse 2) := by
  have hdetour : ∀ entry later, (recordAt crossroads entry).player = "" →
      (recordAt crossroads later).player = "" → entry < later → detour entry < detour later := by
    decide
  have hrotation : ∀ entry later, (recordAt carousel entry).player = "" →
      (recordAt carousel later).player = "" → entry < later → rotation entry < rotation later := by
    decide
  refine ⟨hdetour, ?_, hrotation, ?_⟩
  · have hnumbers : newNumber detour 0 = 1 ∧ newNumber detour 1 = 0 ∧ newNumber detour 2 = 2 ∧
        newNumber detour 3 = 4 := by decide
    obtain ⟨hfirst, hleft, hright, hlast⟩ := hnumbers
    rw [build_permuted crossroads detour hdetour, build_crossroads]
    simp [renumberedBy, Line.renumbered, parting, farewell, hfirst, hleft, hright, hlast]
  · rw [build_permuted carousel rotation hrotation, build_carousel]
    rfl

end Conversation

end Parley
