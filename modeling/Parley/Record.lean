/-!
# Records

The flat form in which a conversation is stored. A record names its responses by their positions in
the array that holds them all. A record whose player prompt is empty opens the conversation.
-/

namespace Parley

structure Record where
  player : String
  text : String
  /-- A condition token, alone or before an equals sign and a parameter. -/
  condition : String
  action : String
  response : List Nat
deriving DecidableEq

namespace Record

def isEntry (record : Record) : Bool :=
  record.player.isEmpty

end Record

end Parley
