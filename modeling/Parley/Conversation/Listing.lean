import Parley.Line
import Std.Data.TreeMap

/-!
# Listing a conversation

The lines of a conversation, each once. Lines are told apart by their index.
-/

namespace Parley.Conversation

theorem sizeOf_append_lt (front back : List Line) :
    sizeOf (front ++ back) < sizeOf front + sizeOf back := by
  induction front with
  | nil => simp
  | cons line rest ih =>
    simp only [List.cons_append, List.cons.sizeOf_spec]
    omega

theorem sizeOf_responses_lt (line : Line) : sizeOf line.responses < sizeOf line := by
  cases line
  simp only [Line.mk.sizeOf_spec]
  omega

def reach (found : Std.TreeMap Nat Line) (pending : List Line) : Std.TreeMap Nat Line :=
  match pending with
  | [] => found
  | line :: rest =>
    if found.contains line.index then reach found rest
    else reach (found.insert line.index line) (line.responses ++ rest)
termination_by sizeOf pending
decreasing_by
  · simp only [List.cons.sizeOf_spec]
    omega
  · have hboth := sizeOf_append_lt line.responses rest
    have hresponses := sizeOf_responses_lt line
    simp only [List.cons.sizeOf_spec]
    omega

/-- The lines reached from the entries, in the order of their indices. -/
def listing (entries : List Line) : List Line :=
  (reach ∅ entries).valuesArray.toList

end Parley.Conversation
