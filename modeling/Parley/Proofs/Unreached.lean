import Parley.Proofs.Renumbering

/-!
# Records that no entry leads to

A build does not depend on the records that no entry leads to. They may be replaced by any others
that do not open the conversation, and once a build succeeds, by any number of them.
-/

namespace Parley.Conversation

variable {records others : Array Record}

/-- The others have their entries where the records do, and are the same wherever an entry leads. -/
structure Agree (records others : Array Record) : Prop where
  openings : ∀ position, EntryAt others position ↔ EntryAt records position
  reached : ∀ index, Reached records index → others[index.val]? = some (recordAt records index)

theorem Agree.carries (h : Agree records others)
    (hinside : ∀ index, Reached records index → ∀ response ∈ (recordAt records index).response,
      records.size ≤ response → others.size = records.size) : Carries id records others := by
  constructor
  · intro index hindex
    rw [Record.renumbered_id]
    exact h.reached index hindex
  · intro index other _ _ heq
    exact Fin.ext heq
  · intro index hindex response hresponse houtside
    exact ⟨rfl, hinside index hindex response hresponse houtside⟩

theorem Agree.build_eq (h : Agree records others) (hcarries : Carries id records others) :
    build others = build records := by
  have hentries : List.Forall₂ (Moves id) (entries records) (entries others) := by
    apply moves_entries
    · intro position
      rw [h.openings, entryAt_iff]
      rfl
    · intro entry _ later _ hless
      exact hless
  rw [build_carried hcarries hentries]
  apply renumberedBy_id
  exact List.map_id'' Line.renumbered_id

/-- Two conversations of the same size that agree on everything that an entry leads to come to the
same. If the build of one succeeds, so does that of every other that agrees with it, whatever its
size. -/
theorem unreached_records_make_no_difference (h : Agree records others) :
    (others.size = records.size → build others = build records) ∧
      ∀ lines, build records = .ok lines → build others = .ok lines := by
  constructor
  · intro hsize
    exact h.build_eq (h.carries fun _ _ _ _ _ => hsize)
  · intro lines hlines
    rw [← hlines]
    apply h.build_eq (h.carries _)
    intro index hindex response hresponse houtside
    obtain ⟨entry, hentry, hleads⟩ := hindex
    obtain ⟨hfit, -, -⟩ := clear_of_build hlines (mem_entries.mpr hentry) hleads
    exact absurd (hfit.inside response hresponse) (Nat.not_lt.mpr houtside)

/-- Records that need a prompt may be added behind the others, whatever is wrong with them. -/
theorem agree_append {extra : Array Record} (h : ∀ record ∈ extra, record.player ≠ "") :
    Agree records (records ++ extra) := by
  constructor
  · intro position
    by_cases hinside : position < records.size
    · simp only [EntryAt, Array.getElem?_append_left hinside]
    · have hbehind := Nat.le_of_not_lt hinside
      simp only [EntryAt, Array.getElem?_append_right hbehind, Array.getElem?_eq_none hbehind]
      constructor
      · rintro ⟨record, hrecord, hplayer⟩
        exact absurd hplayer (h record (Array.mem_of_getElem? hrecord))
      · rintro ⟨record, hrecord, -⟩
        cases hrecord
  · intro index _
    rw [Array.getElem?_append_left index.isLt]
    exact Array.getElem?_eq_getElem index.isLt

/-- A record that responds with itself and with one out of range, and one that cannot be read. -/
def rabble : Array Record :=
  #[⟨"Loop?", "Loop.", "none", "no action", [5, 99]⟩, ⟨"Hm?", "", "mood", "dance", [0]⟩]

theorem crossroads_undisturbed :
    Agree crossroads (crossroads ++ rabble) ∧
      ∃ lines, build crossroads = .ok lines ∧ build (crossroads ++ rabble) = .ok lines := by
  have hagree : Agree crossroads (crossroads ++ rabble) := by
    apply agree_append
    decide
  exact ⟨hagree, _, build_crossroads,
    (unreached_records_make_no_difference hagree).2 _ build_crossroads⟩

end Parley.Conversation
