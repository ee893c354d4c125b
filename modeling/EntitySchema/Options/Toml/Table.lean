import EntitySchema.Options.Setting

/-! The tables of a TOML text while its lines are read. Nothing is defined twice, and a
table is open only to the kind of line that made it: one that a header names is not
extended by dotted keys, nor is one that dotted keys make named by a header. -/

namespace EntitySchema.Toml

/-- What made a table. -/
inductive Origin where
  /-- A header that names a table inside it. -/
  | implied
  /-- Its own header. -/
  | headed
  /-- The dots of a key. -/
  | dotted
  deriving DecidableEq, Repr

inductive Item where
  | value (v : Setting)
  | table (origin : Origin) (members : List (String × Item))
  /-- A list of tables, each with a header of its own; only the last one can change. -/
  | tables (last : List (String × Item))
  deriving Repr, Inhabited

/-- The members of a table. -/
abbrev Members := List (String × Item)

namespace Item

mutual

/-- The setting that an item is. -/
def setting : Item → Setting
  | value v => v
  | table _ members => .table (settings members)
  | tables _ => .list [.table []]

/-- The settings that the members of a table are. -/
def settings : List (String × Item) → List (String × Setting)
  | [] => []
  | (name, item) :: rest => (name, setting item) :: settings rest

end

end Item

namespace Members

/-- The members with another item for a name. -/
def set (members : Members) (name : String) (item : Item) : Members :=
  if (members.lookup name).isSome then
    members.map fun member => if member.1 = name then (name, item) else member
  else members ++ [(name, item)]

/-- Changes the table that a path leads to, making tables on the way; `dotted` tells
whether the path is that of a key. -/
def change (dotted : Bool) (members : Members) (origin : Origin)
    (f : Members → Origin → Option Members) : List String → Option Members
  | [] => f members origin
  | name :: path =>
    match members.lookup name with
    | none => do
      let made := if dotted then Origin.dotted else .implied
      pure (members.set name (.table made (← change dotted [] made f path)))
    | some (.value _) => none
    | some (.tables last) => do
      pure (members.set name (.tables (← change dotted last .headed f path)))
    | some (.table made inner) =>
      if dotted && made = .headed then none
      else do pure (members.set name (.table made (← change dotted inner made f path)))

/-- Defines a value. Dots of its key lead through tables that keys have made. -/
def define (members : Members) (path : List String) (name : String) (v : Setting) :
    Option Members :=
  members.change true .headed (fun inner origin =>
    if (path = [] || origin = .dotted) && (inner.lookup name).isNone then
      some (inner.set name (.value v))
    else none) path

/-- Opens the table of a header. It is new, or was implied by a header before. -/
def openTable (members : Members) (name : String) : Option Members :=
  match members.lookup name with
  | none => some (members.set name (.table .headed []))
  | some (.table .implied inner) => some (members.set name (.table .headed inner))
  | some _ => none

/-- Opens another table in a list of tables. -/
def openNext (members : Members) (name : String) : Option Members :=
  match members.lookup name with
  | none | some (.tables _) => some (members.set name (.tables []))
  | some _ => none

end Members

end EntitySchema.Toml
