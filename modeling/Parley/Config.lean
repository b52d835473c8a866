import Parley.Document.DataFile
import Parley.Toml.Reader

/-!
# Settings

The settings of conversations, each with a default. A settings document need not give them all, and
what else it says does not matter.
-/

namespace Parley

structure Config where
  dataPath : String
  /-- What the player is told when an NPC attacks, with a marker for the name of the NPC. -/
  hostilityNotice : String
  exitLabel : String
deriving DecidableEq

inductive ConfigError
  | unreadable
  | malformed
deriving DecidableEq

namespace Config

def standard : Config :=
  { dataPath := "json/npcs.json"
    hostilityNotice := "\n\x7bnpc\x7d is now attacking you!\n"
    exitLabel := "Exit the conversation" }

/-- The string given to a key, or the default if the key is not there. -/
def setting? (default key : String) (members : Toml.Members) : Option String :=
  match members.lookup key with
  | none => some default
  | some (.value (.string text)) => some text
  | _ => none

def ofMembers? (members : Toml.Members) : Option Config := do
  let dataPath ← setting? standard.dataPath "data_path" members
  let hostilityNotice ← setting? standard.hostilityNotice "hostility_notice" members
  let exitLabel ← setting? standard.exitLabel "exit_label" members
  some { dataPath, hostilityNotice, exitLabel }

def ofText (text : List Char) : Except ConfigError Config :=
  match Toml.read? text >>= ofMembers? with
  | some config => .ok config
  | none => .error .malformed

def ofFile (file : DataFile) : Except ConfigError Config :=
  match file.text? with
  | some text => ofText text
  | none => .error .unreadable

end Config

end Parley
