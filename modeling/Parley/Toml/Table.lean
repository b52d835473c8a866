/-!
# TOML tables

Tables of TOML and what their definitions may do. A table is opened by its header once; a header
implies the tables on the way to it, which may still be opened later; a dotted key makes tables of
its own, which later dotted keys may add to but no header may open. The items of an array of tables
are opened one after the other, and headers lead into the last one.
-/

namespace Parley.Toml

/-- A value: a string, or something else that no setting can have. -/
inductive Value
  | string (text : String)
  | other
deriving DecidableEq

inductive Origin
  | opened
  | implied
  | dotted
deriving DecidableEq

inductive Node
  | value (value : Value)
  | table (origin : Origin) (members : List (String × Node))
  /-- An array of tables, by the members of the last of them. -/
  | tables (last : List (String × Node))

abbrev Members :=
  List (String × Node)

namespace Members

/-- Give a node to a key, in the place of the one it had. -/
def put (key : String) (node : Node) : Members → Members
  | [] => [(key, node)]
  | member :: rest =>
    if member.1 = key then (key, node) :: rest else member :: put key node rest

/-- Change the table to which the keys of a header lead. -/
def within (change : Members → Option Members) : List String → Members → Option Members
  | [], members => change members
  | key :: path, members =>
    match members.lookup key with
    | none => (within change path []).map fun inner => put key (.table .implied inner) members
    | some (.table origin inner) =>
      (within change path inner).map fun inner => put key (.table origin inner) members
    | some (.tables last) =>
      (within change path last).map fun last => put key (.tables last) members
    | some (.value _) => none

def openTable (key : String) (members : Members) : Option Members :=
  match members.lookup key with
  | none => some (put key (.table .opened []) members)
  | some (.table .implied inner) => some (put key (.table .opened inner) members)
  | _ => none

def openNext (key : String) (members : Members) : Option Members :=
  match members.lookup key with
  | none | some (.tables _) => some (put key (.tables []) members)
  | _ => none

/-- Give a value to a key, perhaps a dotted one, that has none. The last part of the key must be in
the table where the key begins or in one made by dotted keys, which `own` says of this table. -/
def assign (value : Value) (own : Bool) : List String → Members → Option Members
  | [], _ => none
  | [key], members =>
    if own ∧ (members.lookup key).isNone then some (put key (.value value) members) else none
  | key :: path, members =>
    match members.lookup key with
    | none => (assign value true path []).map fun inner => put key (.table .dotted inner) members
    | some (.table .dotted inner) =>
      (assign value true path inner).map fun inner => put key (.table .dotted inner) members
    | some (.table .implied inner) =>
      (assign value false path inner).map fun inner => put key (.table .implied inner) members
    | some (.tables last) =>
      (assign value false path last).map fun last => put key (.tables last) members
    | some (.table .opened _) | some (.value _) => none

end Members

inductive Statement
  /-- The keys of a header, the last one apart. -/
  | table (path : List String) (key : String)
  | nextTable (path : List String) (key : String)
  | setting (key : List String) (value : Value)

/-- What a document has said so far: all its members, and the keys of the header it is under. -/
structure Document where
  members : Members
  header : List String

namespace Document

def empty : Document :=
  ⟨[], []⟩

def state? (document : Document) : Statement → Option Document
  | .table path key =>
    (document.members.within (Members.openTable key) path).map (⟨·, path ++ [key]⟩)
  | .nextTable path key =>
    (document.members.within (Members.openNext key) path).map (⟨·, path ++ [key]⟩)
  | .setting key value =>
    (document.members.within (Members.assign value true key) document.header).map
      (⟨·, document.header⟩)

end Document

end Parley.Toml
