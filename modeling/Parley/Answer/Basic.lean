import Parley.Line

/-!
# Answers

How the player answers a line: with one of its responses, by position, or by leaving. A source of
answers is asked with the line, may show messages, and goes on in a state of its own.
-/

namespace Parley

inductive Selection
  | respond (choice : Nat)
  | leave
deriving DecidableEq

structure Answer (τ : Type) where
  selection : Selection
  messages : List String
  source : τ

structure AnswerSource (τ : Type) where
  select : τ → Line → Answer τ

end Parley
