import EntitySchema.Hierarchy
import EntitySchema.Link.Name

/-! Many-to-many fields of interfaces. An interface has no table, so its
many-to-many fields move to the entities that implement it, each with a link
entity of its own. -/

namespace EntitySchema.Link

/-- The names that no new link may take: those of entities and of declared links. -/
def takenNames (m : Model) : List String :=
  m.entityNames ++ (m.entities.flatMap (·.fields)).filterMap fun f => f.type.link?.bind (·.name)

/-- The link of a field that moved to an entity. The column for the target is kept. -/
def movedLink (owner name : String) (target : Target) (link : Link) (dialect : Dialect) : Link :=
  let remote := link.remoteId.getD target.entity
  { name := some name, localId := some (ownColumn owner remote dialect), remoteId := some remote }

/-- Copies made for an entity, and the names taken after that. -/
structure Moved where
  copies : List Field := []
  taken : List String

/-- Adds a copy of a field of an interface, if it is many-to-many and neither the
entity nor the copies have a field of its name. -/
def move (dialect : Dialect) (e : Entity) (moved : Moved) (f : Field) : Except LinkFault Moved :=
  match f.type with
  | .mref target link =>
    if e.hasField f.name || moved.copies.any (·.name = f.name) then .ok moved
    else
      let base := s!"{e.name}_{f.name}"
      match Identifier.free? base dialect.limit? moved.taken with
      | none => .error (.noFreeName base)
      | some name =>
        let type := FieldType.mref target (movedLink e.name name target link dialect)
        .ok {
          copies := moved.copies ++ [{ f with type, origin := .interfaceMref }]
          taken := name :: moved.taken }
  | _ => .ok moved

/-- The fields that move to an entity from all interfaces that it implements. -/
def moveAll (m : Model) (dialect : Dialect) (e : Entity) (taken : List String) :
    Except LinkFault Moved :=
  ((m.ownInterfaces e.name).flatMap (·.fields)).foldlM (move dialect e) { taken }

/-- Moves fields to the entity of this name, unless it is abstract. -/
def moveTo (dialect : Dialect) (taken : List String) (name : String) : Pass (List String) := do
  let m ← get
  match m.entity? name with
  | none => pure taken
  | some e =>
    if e.isAbstract then pure taken
    else
      let moved ← (moveAll m dialect e taken).mapError Failure.link
      Pass.change (·.changeEntity name fun e' => { e' with fields := e'.fields ++ moved.copies })
      pure moved.taken

/-- Abstract entities without their many-to-many fields. -/
def stripInterfaces (m : Model) : Model :=
  { m with entities := m.entities.map fun e =>
    if e.isAbstract then { e with fields := e.fields.filter (!·.isMref) } else e }

/-- Moves the many-to-many fields of interfaces to the entities that implement
them. -/
def relocate (dialect : Dialect) : Pass Unit := do
  let m ← get
  let _ ← m.entityNames.foldlM (moveTo dialect) (takenNames m)
  Pass.change stripInterfaces

end EntitySchema.Link
