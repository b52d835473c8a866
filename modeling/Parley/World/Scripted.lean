import Parley.World.Basic

/-!
# Collaborators that follow a script

Each fight deals the next damage of the script, and each trade has the next of its effects; a script
that is used up deals no damage and has no effects.
-/

namespace Parley

/-- What a trade does to the player, in the order of the fields. -/
structure TradeEffect where
  gains : List (String × UInt32)
  losses : List (String × UInt32)
  level : Option Int
  type : Option String
  cause : Option String

namespace TradeEffect

/-- A trade that leaves the player as before. -/
def nothing : TradeEffect :=
  ⟨[], [], none, none, none⟩

def apply (effect : TradeEffect) (player : Player) : Player :=
  { player with
    inventory := (player.inventory.addAll effect.gains).removeAll effect.losses
    level := effect.level.getD player.level
    type := effect.type.getD player.type }

end TradeEffect

structure Script where
  damages : List Int
  effects : List TradeEffect

namespace Script

def attack (script : Script) (player : Player) (target : String) : Encounter Script :=
  let player := player.damage (script.damages.headD 0)
  { player, state := { script with damages := script.damages.tail }
    death := if player.health.current = 0 then some ⟨player.name, target⟩ else none }

def trade (script : Script) (_npc : Npc) (player : Player) (_mode : TradeMode) : Encounter Script :=
  let effect := script.effects.headD .nothing
  { player := effect.apply player, state := { script with effects := script.effects.tail }
    death := effect.cause.map fun cause => ⟨player.name, cause⟩ }

def collaborators : Collaborators Script :=
  ⟨attack, trade⟩

end Script

end Parley
