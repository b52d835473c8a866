/-!
# Lines

The lines of a conversation. A line is what an NPC says, together with what the player says to
reach it, the condition under which it may open a conversation, the action it sets off, and the
lines the player can answer with. Conditions and actions are written as tokens.
-/

namespace Parley

inductive Condition
  | unconditional
  | ally
  | enemy
  | level
  | item
deriving DecidableEq

namespace Condition

def all : List Condition :=
  [unconditional, ally, enemy, level, item]

def token : Condition → String
  | unconditional => "none"
  | ally => "ally"
  | enemy => "enemy"
  | level => "level"
  | item => "item"

def name : Condition → String
  | unconditional => "None"
  | ally => "Ally"
  | enemy => "Enemy"
  | level => "Level"
  | item => "Item"

def ofToken? (token : String) : Option Condition :=
  all.find? (·.token = token)

def ofName? (name : String) : Option Condition :=
  all.find? (·.name = name)

@[simp]
theorem ofToken?_token (condition : Condition) : ofToken? condition.token = some condition := by
  cases condition <;> decide

/-- A written condition is a token, or a token, an equals sign and a parameter. The text up to the
first equals sign, and the text after it. -/
def split (written : List Char) : List Char × List Char :=
  (written.takeWhile (· ≠ '='), (written.dropWhile (· ≠ '=')).drop 1)

/-- The condition and the parameter, or the token that is none. -/
def read (written : String) : Except String (Condition × String) :=
  let (token, parameter) := split written.toList
  match ofToken? (String.ofList token) with
  | some condition => .ok (condition, String.ofList parameter)
  | none => .error (String.ofList token)

end Condition

inductive Action
  | nothing
  | attack
  | buy
  | sell
  | trade
  | give
  | take
deriving DecidableEq

namespace Action

def all : List Action :=
  [nothing, attack, buy, sell, trade, give, take]

def token : Action → String
  | nothing => "no action"
  | attack => "attack"
  | buy => "buy"
  | sell => "sell"
  | trade => "trade"
  | give => "give"
  | take => "take"

def name : Action → String
  | nothing => "NoAction"
  | attack => "Attack"
  | buy => "Buy"
  | sell => "Sell"
  | trade => "Trade"
  | give => "Give"
  | take => "Take"

def ofToken? (token : String) : Option Action :=
  all.find? (·.token = token)

def ofName? (name : String) : Option Action :=
  all.find? (·.name = name)

@[simp]
theorem ofToken?_token (action : Action) : ofToken? action.token = some action := by
  cases action <;> decide

end Action

structure Line where
  /-- The position of the line among the records of its conversation. -/
  index : Nat
  /-- What the player says to reach the line. -/
  prompt : String
  text : String
  condition : Condition
  parameter : String
  action : Action
  responses : List Line

namespace Line

/-- A line that opens a conversation follows nothing the player says. -/
def isEntry (line : Line) : Bool :=
  line.prompt.isEmpty

def isLast (line : Line) : Bool :=
  line.responses.isEmpty

end Line

end Parley
