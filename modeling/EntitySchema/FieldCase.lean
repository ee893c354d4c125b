import EntitySchema.Pass
import EntitySchema.Text.Listing

/-! Letter case of fields. In a finished model every field has a name in lower
case, and everything that mentions a field does so by that name. -/

namespace EntitySchema.FieldCase

/-- Gives the fields of these names their names in lower case, up to the first
one whose new name is taken. -/
def lowerNames : List String → Entity → Entity × Except Identifier.Fault Unit
  | [], e => (e, .ok ())
  | name :: rest, e =>
    let lowered := Text.lower name
    if e.hasField lowered then (e, .error (.sameInLowerCase name lowered e.name))
    else lowerNames rest (e.renameField name lowered)

/-- The names of fields that are not in lower case. -/
def mixedNames (e : Entity) : List String :=
  (e.fields.map (·.name)).filter fun name => name ≠ Text.lower name

/-- Gives all fields their names in lower case, up to the first fault. -/
def lowerEntities : List Entity → List Entity × Except Identifier.Fault Unit
  | [] => ([], .ok ())
  | e :: rest =>
    match lowerNames (mixedNames e) e with
    | (changed, .error fault) => (changed :: rest, .error fault)
    | (changed, .ok ()) =>
      let (others, outcome) := lowerEntities rest
      (changed :: others, outcome)

/-- A label with its field in lower case: of a path, what follows the first dot. -/
def lowerLabel (label : String) : String :=
  match Text.splitAtFirst '.' label with
  | some (entity, field) => s!"{entity}.{Text.lower field}"
  | none => Text.lower label

/-- A reference that mentions fields in lower case. -/
def lowerTarget (target : Target) : Target :=
  { target with field := target.field.map Text.lower, labels := target.labels.map lowerLabel }

def lowerReferences (m : Model) : Model :=
  { m with entities := m.entities.map fun e =>
    { e with fields := e.fields.map fun f => { f with type := f.type.mapTarget lowerTarget } } }

/-- Puts every field in lower case, and then what refers to fields. -/
def correct : Pass Unit := do
  let m ← get
  let (entities, outcome) := lowerEntities m.entities
  set { m with entities }
  outcome.mapError Failure.identifier
  Pass.change lowerReferences

end EntitySchema.FieldCase
