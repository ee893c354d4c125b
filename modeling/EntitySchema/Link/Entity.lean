import EntitySchema.Hierarchy
import EntitySchema.Link.Name

/-! Link entities. Every many-to-many field of a concrete entity is backed by the
entity that its link names. If there is one already, declared or made for the
other side of the relation, the field takes its columns from it; otherwise the
entity is made. -/

namespace EntitySchema.Link

/-- The key of a link entity, which keeps its pairs in order. -/
def keyName : String := "autoid"

def keyField : Field :=
  { Field.named keyName .int with
    auto := true, readonly := true, hidden := true, origin := .linkTable }

/-- A column of a link entity. -/
def column (name : String) (target : Target) : Field :=
  { Field.named name (.xref target) with origin := .linkTable }

/-- The name of the column for a key field of the owner: the column declared for
the owner, with the name of the key field behind it if there are several. -/
def ownerColumnName (dialect : Dialect) (localId : String) (several : Bool) (f : Field) : String :=
  if several then Identifier.mangle s!"{localId}_{f.name}" dialect.limit? else localId

/-- A column that refers to a key field of the owner. -/
def ownerColumn (dialect : Dialect) (owner localId : String) (several : Bool) (f : Field) : Field :=
  column (ownerColumnName dialect localId several f)
    { entity := owner, field := some f.name, labels := [f.name] }

/-- A link entity without columns. -/
def plainEntity (owner : Entity) (field name : String) : Entity :=
  { Entity.named name with
    system := true
    association := true
    scope := owner.scope
    module := owner.module
    description := some s!"Link table for many-to-many relationship '{owner.name}.{field}'."
    fields := [keyField]
    keys := [{ fields := [keyName] }] }

/-- Adds columns to a link entity, and a key over them. -/
def withColumns (columns : List Field) (e : Entity) : Except DuplicateFault Entity := do
  let e ← columns.foldlM Entity.addField e
  e.addKey { fields := columns.map (·.name) }

/-- The link entity for a field: a key of its own, a column for each field of the
owner's primary key, and a column for the target. -/
def make (m : Model) (dialect : Dialect) (owner : Entity) (field : String) (target : Target)
    (link : Link) (name : String) : Except Failure Entity := do
  let context := s!"{owner.name}.{field}"
  match link.localId, link.remoteId with
  | some localId, some remoteId =>
    let keyFields := m.primaryKeyFields owner.name
    if keyFields.isEmpty then throw (.link (.ownerWithoutKey context owner.name))
    let columns := keyFields.map (ownerColumn dialect owner.name localId (1 < keyFields.length))
      ++ [column remoteId target]
    withColumns columns (plainEntity owner field name)
  | _, _ => throw (.link (.noColumns context))

/-- The columns of a link entity that refer to an entity. -/
def columnsFor (link : Entity) (entity : String) : List String :=
  (link.fields.filter fun f => !f.isMref && f.targetEntity? = some entity).map (·.name)

/-- The column for the target: the declared one if it refers to the target, else
the first that does. -/
def remoteColumn? (link : Entity) (target : String) (declared : Option String) : Option String :=
  let columns := columnsFor link target
  (columns.find? fun name => some name = declared).or columns.head?

/-- The column for the owner: the first that refers to it, but for the one for the
target. -/
def localColumn? (link : Entity) (owner remote : String) : Option String :=
  (columnsFor link owner).find? (· ≠ remote)

/-- The field with other labels for what it refers to. -/
def showing (labels : List String) (f : Field) : Field :=
  { f with type := f.type.mapTarget fun target => { target with labels } }

/-- The field with these columns of its link entity. -/
def through (localId remoteId : String) (f : Field) : Field :=
  { f with type := f.type.mapLink fun link =>
    { link with localId := some localId, remoteId := some remoteId } }

/-- Takes the columns of a field from a link entity that exists, whose column for
the target shows what the field shows. -/
def reuse (m : Model) (owner : String) (index : Nat) (field : String) (target : Target)
    (link : Link) (existing : Entity) : Except LinkFault Model := do
  let context := s!"{owner}.{field}"
  let some remote := remoteColumn? existing target.entity link.remoteId
    | throw (.missingColumn existing.name context target.entity)
  let some own := localColumn? existing owner remote
    | throw (.missingColumn existing.name context owner)
  let shown := m.changeEntity existing.name fun e =>
    { e with fields := changeFirst (·.name = remote) (showing target.labels) e.fields }
  pure <| shown.changeEntity owner fun e =>
    { e with fields := e.fields.modify index (through own remote) }

/-- Backs one field of an entity by its link entity, and tells whether that was
made. -/
def back (dialect : Dialect) (owner : String) (index : Nat) : Pass (List String) := do
  let m ← get
  let some e := m.entity? owner | pure []
  let some f := e.fields[index]? | pure []
  match f.type with
  | .mref target link =>
    let some name := link.name | throw (.link (.unnamed s!"{owner}.{f.name}"))
    match m.entity? name with
    | some existing =>
      let changed ← (reuse m owner index f.name target link existing).mapError Failure.link
      set changed
      pure []
    | none =>
      let made ← make m dialect e f.name target link name
      let changed ← (m.addEntity made).mapError Failure.duplicate
      set changed
      pure [name]
  | _ => pure []

/-- Backs the fields of the entity of this name, unless it is abstract. -/
def backAll (dialect : Dialect) (owner : String) : Pass (List String) := do
  match (← get).entity? owner with
  | some e =>
    if e.isAbstract then pure []
    else do
      let made ← (List.range e.fields.length).mapM (back dialect owner)
      pure made.flatten
  | none => pure []

/-- Backs all many-to-many fields, and names the entities that were made. -/
def synthesize (dialect : Dialect) : Pass (List String) := do
  let made ← (← get).entityNames.mapM (backAll dialect)
  pure made.flatten

end EntitySchema.Link
