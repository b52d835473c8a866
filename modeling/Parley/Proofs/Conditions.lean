import Parley.Document.Items
import Parley.Json.Reader
import Parley.Proofs.Holdings
import Parley.Proofs.Spellings
import Parley.World.Judgement

/-!
# How conditions are judged

A condition asks for nothing, for the player's type, for a level or for an item. A level is asked
for by an integer of 32 bits, spelled in digits. An item is asked for by its identity: it must be
one that the catalog was ever given, and the player must have gained more of it than was lost. Who
has gained more of an item than 32 bits can count may be judged to have none.
-/

namespace Parley

namespace Catalog

end Catalog

section Judging

variable {line : Line} {npc : Npc} {player : Player} {deals : List Deal} {catalog : Catalog}
  {items : List Item} {result : Except ConditionError Bool}

theorem Player.has_iff (hinventory : player.inventory = Inventory.empty.dealAll deals)
    {item : String} (hfits : TallyFits deals item) :
    player.has item = true ↔ 0 < tally deals item := by
  rw [Player.has, hinventory, Inventory.contains_dealAll_iff hfits]

end Judging

def asking (condition : Condition) (parameter : String) : Line :=
  ⟨0, "", "Well?", condition, parameter, .nothing, []⟩

end Parley
