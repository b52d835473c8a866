import Parley.Conversation.Build

/-!
# Building by plain recursion

What building a conversation comes to, said without a memo: every response is resolved anew
wherever it occurs, and a record that responds with one on the way to it is cyclic. This is the
meaning of a build and not the way to do it, since a line that is reached along many paths is
resolved once for each.
-/

namespace Parley.Conversation

def offPath {size : Nat} (path : List (Fin size)) : Nat :=
  ((List.finRange size).filter (· ∉ path)).length

theorem offPath_cons_lt {size : Nat} {path : List (Fin size)} {index : Fin size}
    (hfresh : index ∉ path) : offPath (index :: path) < offPath path := by
  have hnarrowed : (List.finRange size).filter (· ∉ index :: path)
      = ((List.finRange size).filter (· ∉ path)).filter (· ≠ index) := by
    rw [List.filter_filter]
    congr 1
    funext other
    simp [List.mem_cons, not_or]
  rw [offPath, hnarrowed, offPath, List.length_filter_lt_length_iff_exists]
  exact ⟨index, by simpa using hfresh, by simp⟩

mutual

/-- The line of a record that is reached through its ancestors. -/
def resolve (records : Array Record) (index : Fin records.size)
    (ancestors : List (Fin records.size)) (_hfresh : index ∉ ancestors) :
    Except BuildError Line := do
  let record := recordAt records index
  let lines ← resolveAll records index (index :: ancestors) record.response
  assemble index record lines
termination_by (offPath ancestors, 0)
decreasing_by exact Prod.Lex.left _ _ (offPath_cons_lt _hfresh)

/-- The lines of the responses of a record, which ends the path to them. -/
def resolveAll (records : Array Record) (index : Fin records.size)
    (path : List (Fin records.size)) : List Nat → Except BuildError (List Line)
  | [] => .ok []
  | response :: rest =>
    if hinside : response < records.size then
      if hfresh : ⟨response, hinside⟩ ∉ path then do
        let line ← resolve records ⟨response, hinside⟩ path hfresh
        let lines ← resolveAll records index path rest
        .ok (line :: lines)
      else .error (.cyclicResponse response)
    else .error (.responseOutOfRange index response records.size)
termination_by responses => (offPath path, responses.length + 1)
decreasing_by
  · exact Prod.Lex.right _ (by simp)
  · exact Prod.Lex.right _ (by simp)

end

end Parley.Conversation
