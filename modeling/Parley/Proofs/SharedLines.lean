import Parley.Proofs.FlatWalk

/-!
# Lines and the records they come from

Positions in lists of responses lead from line to line and, in the same way, from record to record.
In a built conversation both ways end together, at a line and the record that it was built from.
The line of a record does not depend on the path that leads to it, so it is the same line wherever
it is met.
-/

namespace Parley

/-- The line at the end of these positions in the lists of responses, if they lead to one. -/
def Line.along? : Line → List Nat → Option Line
  | line, [] => some line
  | line, position :: rest => do
    let response ← line.responses[position]?
    response.along? rest

namespace Conversation

variable {records : Array Record}

/-- The index of the record at the end of these positions in the lists of responses. -/
def along? (records : Array Record) : Nat → List Nat → Option Nat
  | index, [] => some index
  | index, position :: rest => do
    let record ← records[index]?
    let response ← record.response[position]?
    along? records response rest

theorem eq_of_forall₂ {α β : Type} {R S : α → β → Prop} {xs : List α} {ys zs : List β}
    (hys : List.Forall₂ R xs ys) (hzs : List.Forall₂ S xs zs)
    (hunique : ∀ x y z, R x y → S x z → y = z) : ys = zs := by
  induction hys generalizing zs with
  | nil => exact (List.forall₂_nil_left_iff.mp hzs).symm
  | cons hy _ ih =>
    obtain _ | ⟨hz, hzs⟩ := hzs
    rw [hunique _ _ _ hy hz, ih hzs]

/-- The paths on which a record is resolved make no difference to its line. -/
theorem resolve_unique {index : Fin records.size} {path : List (Fin records.size)}
    {hfresh : index ∉ path} {line : Line} (h : resolve records index path hfresh = .ok line)
    {path' : List (Fin records.size)} {hfresh' : index ∉ path'} {line' : Line}
    (h' : resolve records index path' hfresh' = .ok line') : line = line' := by
  induction index, path, hfresh using path_induction generalizing line path' line' with
  | hstep index path hfresh ih =>
    obtain ⟨hlines, hassemble⟩ := resolve_eq_ok_iff.mp h
    obtain ⟨hlines', hassemble'⟩ := resolve_eq_ok_iff.mp h'
    -- Both lines are assembled from one record, so only their responses could differ.
    have hresponses : line.responses = line'.responses := by
      apply eq_of_forall₂ hlines hlines'
      rintro response next next' ⟨hinside, hnext, hline⟩ ⟨_, hnext', hline'⟩
      exact ih ⟨response, hinside⟩ hnext hline hline'
    rw [hresponses, hassemble'] at hassemble
    exact (Except.ok.inj hassemble).symm

end Conversation

namespace Walk

open Conversation

variable {records : Array Record}

theorem Stands.unique {index : Nat} {line line' : Line} (h : Stands records index line)
    (h' : Stands records index line') : line = line' := by
  obtain ⟨path, hinside, hfresh, hline⟩ := h
  obtain ⟨path', _, hfresh', hline'⟩ := h'
  exact resolve_unique hline hline'

/-- The same positions lead from a line and from its record. -/
theorem Stands.along {index : Nat} {line : Line} (h : Stands records index line)
    (positions : List Nat) :
    Option.Rel (Stands records) (along? records index positions) (line.along? positions) := by
  induction positions generalizing index line with
  | nil => exact .some h
  | cons position rest ih =>
    obtain ⟨record, hrecord, -, -, hresponses⟩ := h.record
    have hresponse := getElem?_of_forall₂ hresponses position
    rw [along?, Line.along?, hrecord, Option.bind_eq_bind, Option.bind_some]
    generalize record.response[position]? = response at hresponse ⊢
    generalize line.responses[position]? = next at hresponse ⊢
    cases hresponse with
    | none => exact .none
    | some hnext => exact ih hnext

theorem stands_of_along {index : Nat} {line last : Line} {positions : List Nat}
    (h : Stands records index line) (hlast : line.along? positions = some last) :
    Stands records last.index last := by
  have halong := h.along positions
  rw [hlast] at halong
  generalize along? records index positions = target at halong
  cases halong with
  | some hstands =>
    obtain ⟨-, -, hindex, -⟩ := hstands.record
    rwa [hindex]

/-- Lines that mirror records: positions lead from line to line as they lead from record to record,
and each record has one line. -/
structure Mirrors (records : Array Record) (lines : List Line) : Prop where
  follows : List.Forall₂
    (fun (entry : Fin records.size) line => ∀ positions,
      Option.Rel (Shows records) (along? records entry positions) (line.along? positions))
    (entries records) lines
  unique : ∀ first ∈ lines, ∀ second ∈ lines, ∀ positions positions' line line',
    first.along? positions = some line → second.along? positions' = some line' →
      line.index = line'.index → line = line'

/-- From the line of each entry, positions lead to a line exactly if they lead from the entry to a
record, and the line is then what that record says, with its responses in order. Lines with the same
index are equal, wherever they are met. -/
theorem built_lines_mirror_records {lines : List Line} (h : build records = .ok lines) :
    Mirrors records lines := by
  have hstands := stands_of_build h
  constructor
  · apply hstands.imp
    intro entry line hline positions
    have halong := hline.along positions
    generalize along? records entry positions = index at halong ⊢
    generalize line.along? positions = last at halong ⊢
    cases halong with
    | none => exact .none
    | some hlast => exact .some hlast.shows
  · intro first hfirst second hsecond positions positions' line line' hline hline' hindex
    obtain ⟨entry, -, hentry⟩ := exists_mem_of_forall₂ hstands hfirst
    obtain ⟨entry', -, hentry'⟩ := exists_mem_of_forall₂ hstands hsecond
    have hhere := stands_of_along hentry hline
    have hthere := stands_of_along hentry' hline'
    rw [hindex] at hhere
    exact hhere.unique hthere

/-- Both ways lead to the same line, which is the second that opens the conversation. -/
theorem crossroads_mirrored :
    build crossroads = .ok [parting, farewell] ∧ Mirrors crossroads [parting, farewell] ∧
      along? crossroads 0 [0, 0] = some 3 ∧ along? crossroads 0 [1, 1] = some 3 ∧
      parting.along? [0, 0] = some farewell ∧ parting.along? [1, 1] = some farewell ∧
      Shows crossroads 3 farewell := by
  have hmirrors := built_lines_mirror_records build_crossroads
  have hshows : Shows crossroads 3 farewell := by
    obtain _ | ⟨hparting, -⟩ := hmirrors.follows
    cases hparting [0, 0] with
    | some hlast => exact hlast
  exact ⟨build_crossroads, hmirrors, rfl, rfl, rfl, rfl, hshows⟩

end Walk

end Parley
