import Parley.Answer.Basic
import Parley.Text.Blank
import Parley.Text.Decimal

/-!
# Menus

A numbered menu, answered by lines of input. The responses are listed by what the player says, and
after them the way out. A line that is no number of the menu is asked for again; the end of the
input and a line that is not UTF-8 leave the conversation.
-/

namespace Parley

structure Menu where
  unread : List UInt8
  exitLabel : String

namespace Menu

/-- The input up to and including the first newline, and the input after it. -/
def splitLine : List UInt8 → List UInt8 × List UInt8
  | [] => ([], [])
  | byte :: rest =>
    if byte = 10 then ([byte], rest)
    else
      let (line, unread) := splitLine rest
      (byte :: line, unread)

theorem splitLine_append (input : List UInt8) :
    (splitLine input).1 ++ (splitLine input).2 = input := by
  induction input with
  | nil => rfl
  | cons byte rest ih =>
    simp only [splitLine]
    split
    · rfl
    · simp [ih]

theorem splitLine_fst_ne_nil {input : List UInt8} (h : input ≠ []) : (splitLine input).1 ≠ [] := by
  cases input with
  | nil => exact absurd rfl h
  | cons byte rest =>
    simp only [splitLine]
    split <;> simp

def decode? (line : List UInt8) : Option (List Char) :=
  (ByteArray.mk line.toArray).utf8Decode?.map Array.toList

/-- What a menu with `options` responses takes a line for. -/
def choice? (options : Nat) (text : List Char) : Option Selection :=
  match Decimal.word64? (Blank.trim text) with
  | none => none
  | some number =>
    if 1 ≤ number ∧ number ≤ options then some (.respond (number - 1))
    else if number = options + 1 then some .leave
    else none

def item (number : Nat) (label : String) : String :=
  toString number ++ ") " ++ label

def listing (exitLabel : String) (line : Line) : List String :=
  (line.responses.zipIdx 1).map (fun (response, number) => item number response.prompt)
    ++ [item (line.responses.length + 1) exitLabel]

def reminder (options : Nat) : String :=
  "Please enter a number between 1 and " ++ toString (options + 1) ++ "."

/-- Read lines until one decides: the selection, a reminder for each line that did not, and the
input after the line that did. -/
def read (options : Nat) (input : List UInt8) : Selection × List String × List UInt8 :=
  if _hexhausted : input = [] then (.leave, [], [])
  else
    match decode? (splitLine input).1 with
    | none => (.leave, [], (splitLine input).2)
    | some text =>
      match choice? options text with
      | some selection => (selection, [], (splitLine input).2)
      | none =>
        let (selection, messages, unread) := read options (splitLine input).2
        (selection, reminder options :: messages, unread)
termination_by input.length
decreasing_by
  have hparts := congrArg List.length (splitLine_append input)
  have hpositive := List.length_pos_iff.mpr (splitLine_fst_ne_nil _hexhausted)
  rw [List.length_append] at hparts
  omega

def select (menu : Menu) (line : Line) : Answer Menu :=
  let (selection, messages, unread) := read line.responses.length menu.unread
  ⟨selection, listing menu.exitLabel line ++ messages, { menu with unread }⟩

def source : AnswerSource Menu :=
  ⟨select⟩

end Menu

end Parley
