import Parley.Character
import Parley.Item
import Parley.Line
import Parley.Text.Template
import Parley.World.Messages

/-!
# The world of a conversation

The world that conversations take place in: the player, the items, the messages, and the two
collaborators that fight and trade with the player. Every call of a collaborator is entered in a
journal.
-/

namespace Parley

structure TradeMode where
  buy : Bool
  sell : Bool
deriving DecidableEq

def TradeMode.both : TradeMode :=
  ⟨true, true⟩

/-- What a fight or a trade leaves behind: the player, the collaborator's own state, and the
player's death if it came to that. -/
structure Encounter (σ : Type) where
  player : Player
  state : σ
  death : Option PlayerDeath

/-- Those that act on a conversation's behalf, with a state of their own. -/
structure Collaborators (σ : Type) where
  attack : σ → Player → String → Encounter σ
  trade : σ → Npc → Player → TradeMode → Encounter σ

/-- A call of a collaborator: whom the player was made to fight, or whom to trade with and how. -/
inductive Call
  | attack (target : String)
  | trade (npc : String) (mode : TradeMode)
deriving DecidableEq

structure World (σ : Type) where
  player : Player
  item? : ItemLookup
  /-- What the player is told when an NPC attacks, with a marker for the name of the NPC. -/
  notice : String
  messages : Messages
  journal : Array Call
  state : σ

namespace World

variable {σ : Type}

def offer (world : World σ) (message : String) : World σ :=
  { world with messages := world.messages.offer message }

def offerAll (world : World σ) (messages : List String) : World σ :=
  { world with messages := world.messages.offerAll messages }

def hostility (world : World σ) (npc : Npc) : String :=
  String.ofList (Template.fill npc.name.toList world.notice.toList)

/-- Enter a call in the journal and take over what it left behind. -/
def settle (world : World σ) (call : Call) (encounter : Encounter σ) : World σ :=
  { world with
    player := encounter.player, state := encounter.state, journal := world.journal.push call }

/-- An attack is announced, then fought out. A trade is open on both sides. The other actions do
nothing yet. -/
def act (collaborators : Collaborators σ) (world : World σ) (npc : Npc) (action : Action) :
    World σ × Option PlayerDeath :=
  match action with
  | .attack =>
    let world := world.offer (world.hostility npc)
    let encounter := collaborators.attack world.state world.player npc.name
    (world.settle (.attack npc.name) encounter, encounter.death)
  | .trade =>
    let encounter := collaborators.trade world.state npc world.player .both
    (world.settle (.trade npc.name .both) encounter, encounter.death)
  | .nothing | .buy | .sell | .give | .take => (world, none)

end World

end Parley
