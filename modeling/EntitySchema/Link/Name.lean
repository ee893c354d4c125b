import EntitySchema.Pass

/-! Names of many-to-many fields. The pairs of such a field are held by a link
entity, with a column for the owner of the field and one for its target. What a
document leaves out is filled in here, so that no made-up name coincides with an
entity or with another link. -/

namespace EntitySchema.Link

/-- The places of all fields: the number of the entity and that of the field in it. -/
def places (m : Model) : List (Nat × Nat) :=
  m.entities.zipIdx.flatMap fun (e, i) => (List.range e.fields.length).map fun j => (i, j)

/-- Changes the type of the field at a place. -/
def changeType (place : Nat × Nat) (change : FieldType → FieldType) (m : Model) : Model :=
  { m with entities := m.entities.modify place.1 fun e =>
    { e with fields := e.fields.modify place.2 fun f => { f with type := change f.type } } }

/-- The target of a many-to-many field that names only its link: what a column of
the declared link entity refers to. -/
def targetOfColumn? (link : Entity) (owner : String) (remoteId : Option String) : Option String :=
  let column? := match remoteId with
    | some name => link.field? name
    | none => link.fields.find? fun f => match f.targetEntity? with
      | some entity => entity ≠ "" && entity ≠ owner
      | none => false
  (column?.bind (·.targetEntity?)).filter (· ≠ "")

/-- A field is the other side of a relation through the link. -/
def isOtherSide (link : String) (f : Field) : Bool :=
  (f.type.link?.bind (·.name)) = some link && (f.targetEntity?.any (· ≠ ""))

/-- The owner of another field through the link that has a target. -/
def otherOwner? (m : Model) (owner field link : String) : Option String :=
  let owns (e : Entity) : Bool :=
    (e.fields.filter fun f => !(e.name = owner && f.name = field)).any (isOtherSide link)
  (m.entities.find? owns).map (·.name)

/-- The target of a field that names only its link. -/
def inferTarget? (m : Model) (owner field link : String) (remoteId : Option String) :
    Option String :=
  match m.entity? link with
  | some entity => targetOfColumn? entity owner remoteId
  | none => otherOwner? m owner field link

/-- The name of the column for the owner in a relation between records of one
entity. -/
def selfColumn (owner : String) (dialect : Dialect) : String :=
  Identifier.mangle s!"{owner}_self" dialect.limit?

/-- The name of the column for the owner. -/
def ownColumn (owner remote : String) (dialect : Dialect) : String :=
  if owner = remote then selfColumn owner dialect else owner

/-- The name of the link: the declared one, if it is not too long, or a free one. -/
def linkName (dialect : Dialect) (taken : List String) (owner field : String) :
    Option String → Except Failure String
  | some name =>
    match dialect.limit? with
    | some limit =>
      if limit < name.length then
        throw (.identifier (.tooLong s!"mref_name '{name}' of {owner}.{field}" limit dialect))
      else pure name
    | none => pure name
  | none =>
    match Identifier.free? s!"{owner}_{field}" dialect.limit? taken with
    | some name => pure name
    | none => throw (.link (.noFreeName s!"{owner}_{field}"))

/-- The target and the link of a many-to-many field, complete. -/
def complete (m : Model) (dialect : Dialect) (taken : List String) (owner field : String)
    (target : Target) (link : Link) : Except Failure (Target × Link × String) := do
  let context := s!"{owner}.{field}"
  let name ← linkName dialect taken owner field link.name
  let entity ←
    if target.entity ≠ "" then pure target.entity
    else match inferTarget? m owner field name link.remoteId with
      | some entity => pure entity
      | none => throw (.link (.untargeted context name))
  let remote := link.remoteId.getD entity
  let localId ← match link.localId with
    | some column =>
      if column = remote then throw (.link (.sameColumns context column)) else pure column
    | none => pure (ownColumn owner remote dialect)
  pure ({ target with entity },
    { name := some name, localId := some localId, remoteId := some remote }, name)

/-- Completes the field at a place, if it is many-to-many; the result holds the
names that are taken then. -/
def completeAt (dialect : Dialect) (taken : List String) (place : Nat × Nat) :
    Pass (List String) := do
  let m ← get
  let some e := m.entities[place.1]? | pure taken
  let some f := e.fields[place.2]? | pure taken
  match f.type with
  | .mref target link =>
    let (target, link, name) ← complete m dialect taken e.name f.name target link
    Pass.change (changeType place fun _ => .mref target link)
    pure (name :: taken)
  | _ => pure taken

/-- Fills in the names of all many-to-many fields, in model order. -/
def assignNames (dialect : Dialect) : Pass Unit := do
  let m ← get
  let _ ← (places m).foldlM (completeAt dialect) m.entityNames

end EntitySchema.Link
