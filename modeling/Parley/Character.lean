import Parley.EntityId
import Parley.Inventory
import Std.Data.TreeSet

/-!
# Characters

The characters of the game: those the player can talk to, known by name and with a set of allied
and a set of hostile character types, and the player.
-/

namespace Parley

structure Health where
  current : Int
  maximum : Int
deriving DecidableEq

namespace Health

def full : Health :=
  ⟨100, 100⟩

/-- Damage below zero counts as none, and hit points stop at zero. -/
def damage (health : Health) (amount : Int) : Health :=
  ⟨max (health.current - max amount 0) 0, health.maximum⟩

theorem current_damage (health : Health) (amount : Int) :
    (health.damage amount).current = max (health.current - max amount 0) 0 := rfl

end Health

structure Npc where
  id : EntityId
  name : String
  allies : Std.TreeSet String
  enemies : Std.TreeSet String

structure Player where
  id : EntityId
  name : String
  level : Int
  type : String
  health : Health
  inventory : Inventory
deriving DecidableEq

namespace Player

def isAlive (player : Player) : Bool :=
  0 < player.health.current

def damage (player : Player) (amount : Int) : Player :=
  { player with health := player.health.damage amount }

def has (player : Player) (item : String) : Bool :=
  player.inventory.contains item

end Player

structure PlayerDeath where
  player : String
  cause : String
deriving DecidableEq

def PlayerDeath.message (death : PlayerDeath) : String :=
  death.player ++ " was killed by " ++ death.cause

end Parley
