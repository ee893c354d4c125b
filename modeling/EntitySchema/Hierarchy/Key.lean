import EntitySchema.Hierarchy.Check
import EntitySchema.Pass

/-! Keys along the hierarchy. An entity gets hidden references to the keys of its
interfaces and to the primary keys of its parents, and the parents' key becomes
its own first key. -/

namespace EntitySchema.Hierarchy

/-! ### Keys of interfaces -/

/-- The field of an interface's primary key, if there is exactly one. -/
def singleKeyField? (m : Model) (interface : String) : Option Field :=
  match (m.primaryKey? interface).map (·.fields) with
  | some [name] => m.visibleField? interface name
  | _ => none

/-- The references to keys of interfaces that an entity lacks, each name once. -/
def interfaceKeyCopies (m : Model) (e : Entity) : List Field :=
  (m.ownInterfaces e.name).foldl (fun copies interface =>
    match singleKeyField? m interface.name with
    | none => copies
    | some f =>
      if e.hasField f.name || copies.any (·.name = f.name) then copies
      else copies ++ [f.referenceCopy interface.name .inheritedKey]) []

/-- Puts the references to keys of interfaces before the fields of an entity. -/
def copyInterfaceKeys (name : String) (m : Model) : Model :=
  match m.entity? name with
  | none => m
  | some e => m.changeEntity name fun e' =>
    { e' with fields := interfaceKeyCopies m e ++ e'.fields }

/-! ### Keys of parents -/

/-- Adds a reference to a key field of a parent, unless the entity has a field of
its name. -/
def addParentKeyField (parent : String) (e : Entity) (f : Field) : Entity :=
  if e.hasField f.name then e
  else
    let copy := { f.referenceCopy parent .inheritedKey with system := true }
    { e with fields := e.fields ++ [copy] }

/-- Puts a key before the others, unless the entity has one over the same fields. -/
def leadWithKey (fields : List String) (e : Entity) : Entity :=
  if e.hasKey fields then e else { e with keys := { fields } :: e.keys }

/-- Copies the primary key of a parent into an entity. -/
def copyParentKey (name parent : String) (m : Model) : Except Failure Model := do
  match m.primaryKeyFields parent with
  | [] => throw (.hierarchy (.parentWithoutKey name parent))
  | fields => pure <| m.changeEntity name fun e =>
    leadWithKey (fields.map (·.name)) (fields.foldl (addParentKeyField parent) e)

/-- Puts a counted name before the first one whose count is no smaller. -/
def insertCounted (counted : String × Nat) : List (String × Nat) → List (String × Nat)
  | [] => [counted]
  | other :: rest =>
    if counted.2 ≤ other.2 then counted :: other :: rest else other :: insertCounted counted rest

/-- Entities in the order of the number of their ancestors, so that each comes
after its parents; entities with as many ancestors stay in model order. -/
def topDown (m : Model) : List String :=
  ((m.entityNames.map fun name => (name, (m.ancestors name).length)).foldr insertCounted []).map
    (·.1)

/-- Copies the keys of interfaces and then those of parents down the hierarchy. -/
def propagateKeys : Pass Unit := do
  Pass.check fun m => check m
  (← get).entityNames.forM fun name => Pass.change (copyInterfaceKeys name)
  (topDown (← get)).forM fun name => do
    ((← get).linksOf (·.parents) name).forM fun parent => Pass.step (copyParentKey name parent)

end EntitySchema.Hierarchy
