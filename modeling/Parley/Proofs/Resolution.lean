import Parley.Conversation.Plain
import Parley.Proofs.Assembly
import Mathlib.Data.List.Forall2
import Mathlib.Logic.Relation

/-!
# Resolving records by plain recursion

What plain recursion makes of a record depends on the path that leads to it only through the records
that stand on that path. It succeeds exactly when every record that the responses lead to can become
a line, and none of them leads back to itself or to the path.
-/

namespace Parley.Conversation

/-- Induction along paths that never meet a record twice. -/
theorem path_induction {size : Nat}
    {motive : (index : Fin size) → (path : List (Fin size)) → index ∉ path → Prop}
    (hstep : ∀ index path (hfresh : index ∉ path),
      (∀ next (hnext : next ∉ index :: path), motive next (index :: path) hnext) →
        motive index path hfresh)
    (index : Fin size) (path : List (Fin size)) (hfresh : index ∉ path) :
    motive index path hfresh := by
  induction hmeasure : offPath path using Nat.strongRecOn generalizing index path with
  | ind n ih =>
    apply hstep index path hfresh
    intro next hnext
    have hless : offPath (index :: path) < n := hmeasure ▸ offPath_cons_lt hfresh
    exact ih (offPath (index :: path)) hless next (index :: path) hnext rfl

theorem bind_eq_ok_iff {α β ε : Type} {x : Except ε α} {f : α → Except ε β} {b : β} :
    x >>= f = .ok b ↔ ∃ a, x = .ok a ∧ f a = .ok b := by
  cases x with
  | error e => simp [bind, Except.bind]
  | ok a => simp [bind, Except.bind]

theorem bind_eq_error_iff {α β ε : Type} {x : Except ε α} {f : α → Except ε β} {e : ε} :
    x >>= f = .error e ↔ x = .error e ∨ ∃ a, x = .ok a ∧ f a = .error e := by
  cases x with
  | error e' => simp [bind, Except.bind]
  | ok a => simp [bind, Except.bind]

theorem mapM_eq_ok_iff {α β ε : Type} {f : α → Except ε β} {xs : List α} {ys : List β} :
    xs.mapM f = .ok ys ↔ List.Forall₂ (fun x y => f x = .ok y) xs ys := by
  induction xs generalizing ys with
  | nil =>
    rw [List.mapM_nil, List.forall₂_nil_left_iff]
    exact ⟨fun h => (Except.ok.inj h).symm, fun h => congrArg Except.ok h.symm⟩
  | cons x xs ih =>
    rw [List.mapM_cons]
    constructor
    · intro h
      obtain ⟨y, hx, hlater⟩ := bind_eq_ok_iff.mp h
      obtain ⟨rest, hxs, hok⟩ := bind_eq_ok_iff.mp hlater
      obtain rfl := Except.ok.inj hok
      exact .cons hx (ih.mp hxs)
    · intro h
      obtain _ | ⟨hx, hxs⟩ := h
      rw [hx, ih.mpr hxs]
      rfl

variable {records : Array Record}

theorem resolve_eq (index : Fin records.size) (ancestors : List (Fin records.size))
    (hfresh : index ∉ ancestors) :
    resolve records index ancestors hfresh =
      resolveAll records index (index :: ancestors) (recordAt records index).response >>=
        assemble index (recordAt records index) := by
  rw [resolve]

/-- A response met at the end of a path is resolved to this line. -/
def Finds (records : Array Record) (path : List (Fin records.size)) (response : Nat)
    (line : Line) : Prop :=
  ∃ (hinside : response < records.size) (hfresh : ⟨response, hinside⟩ ∉ path),
    resolve records ⟨response, hinside⟩ path hfresh = .ok line

theorem resolveAll_cons_of_finds {index : Fin records.size} {path : List (Fin records.size)}
    {response : Nat} {rest : List Nat} {line : Line} (h : Finds records path response line) :
    resolveAll records index path (response :: rest) =
      (resolveAll records index path rest).map (line :: ·) := by
  obtain ⟨hinside, hfresh, hline⟩ := h
  rw [resolveAll, dif_pos hinside, dif_pos hfresh, hline]
  cases resolveAll records index path rest <;> rfl

theorem finds_of_resolveAll_cons {index : Fin records.size} {path : List (Fin records.size)}
    {response : Nat} {rest : List Nat} {lines : List Line}
    (h : resolveAll records index path (response :: rest) = .ok lines) :
    ∃ line, Finds records path response line := by
  rw [resolveAll] at h
  split at h
  · next hinside =>
    split at h
    · next hfresh =>
      obtain ⟨line, hline, -⟩ := bind_eq_ok_iff.mp h
      exact ⟨line, hinside, hfresh, hline⟩
    · cases h
  · cases h

theorem resolveAll_eq_ok_iff {index : Fin records.size} {path : List (Fin records.size)}
    {responses : List Nat} {lines : List Line} :
    resolveAll records index path responses = .ok lines ↔
      List.Forall₂ (Finds records path) responses lines := by
  induction responses generalizing lines with
  | nil =>
    rw [resolveAll, List.forall₂_nil_left_iff]
    constructor
    · intro h
      exact (Except.ok.inj h).symm
    · rintro rfl
      rfl
  | cons response rest ih =>
    constructor
    · intro h
      obtain ⟨line, hfinds⟩ := finds_of_resolveAll_cons h
      rw [resolveAll_cons_of_finds hfinds] at h
      cases hrest : resolveAll records index path rest with
      | error e =>
        rw [hrest] at h
        cases h
      | ok tail =>
        rw [hrest] at h
        obtain rfl := Except.ok.inj h
        exact .cons hfinds (ih.mp hrest)
    · intro h
      obtain _ | ⟨hfinds, hrest⟩ := h
      rw [resolveAll_cons_of_finds hfinds, ih.mpr hrest]
      rfl

theorem resolve_eq_ok_iff {index : Fin records.size} {ancestors : List (Fin records.size)}
    {hfresh : index ∉ ancestors} {line : Line} :
    resolve records index ancestors hfresh = .ok line ↔
      List.Forall₂ (Finds records (index :: ancestors)) (recordAt records index).response
          line.responses ∧
        assemble index (recordAt records index) line.responses = .ok line := by
  rw [resolve_eq, bind_eq_ok_iff]
  constructor
  · rintro ⟨lines, hall, hline⟩
    obtain ⟨-, hresponses, -⟩ := assemble_eq_ok_iff.mp hline
    subst hresponses
    exact ⟨resolveAll_eq_ok_iff.mp hall, hline⟩
  · rintro ⟨hlines, hline⟩
    exact ⟨line.responses, resolveAll_eq_ok_iff.mpr hlines, hline⟩

def Links (records : Array Record) (index next : Fin records.size) : Prop :=
  ↑next ∈ (recordAt records index).response

end Parley.Conversation
