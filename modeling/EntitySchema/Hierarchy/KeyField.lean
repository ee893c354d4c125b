import EntitySchema.Failure.Checking
import EntitySchema.Hierarchy
import EntitySchema.Pass

/-! Fields that an entity's own keys name but that only an ancestor or an interface
has are copied into the entity, so that every key is over fields of its entity. -/

namespace EntitySchema.Hierarchy

/-- Adds a copy of the field that a key names to the copies made for an entity,
unless the entity or the copies have it. -/
def copyKeyField (m : Model) (e : Entity) (copies : List Field) (name : String) :
    Except KeyFault (List Field) :=
  if e.hasField name || copies.any (·.name = name) then .ok copies
  else match m.visibleField? e.name name with
    | some f => .ok (copies ++ [{ f with system := true, origin := .constraintCopy }])
    | none => .error (.unknownField name e.name)

/-- The copies that an entity needs, in the order in which its keys name them. -/
def keyFieldCopies (m : Model) (e : Entity) : Except KeyFault (List Field) :=
  (e.keys.flatMap (·.fields)).foldlM (copyKeyField m e) []

/-- Copies the fields that the keys of an entity name into it. -/
def copyKeyFieldsOf (name : String) (m : Model) : Except Failure Model := do
  match m.entity? name with
  | none => pure m
  | some e =>
    let copies ← keyFieldCopies m e
    pure (m.changeEntity name fun e' => { e' with fields := e'.fields ++ copies })

def copyKeyFields : Pass Unit := do
  (← get).entityNames.forM fun name => Pass.step (copyKeyFieldsOf name)

end EntitySchema.Hierarchy
