import EntitySchema.Hierarchy
import EntitySchema.Pass
import EntitySchema.Warning

/-! The discriminator: a field of the root of a hierarchy that says to which
entity of the hierarchy a record belongs. No entity below the root has a field of
its name. -/

namespace EntitySchema.Hierarchy

/-- The name of the field. -/
def discriminatorName : String := "type"

/-- The entities of a hierarchy as the field writes them, the root first. -/
def members (m : Model) (root : String) : List String :=
  (root :: (m.descendants root).map (·.name)).map Text.upperFirst

/-- A field with these options that the system fills in. -/
def discriminator (options : List String) : Field :=
  { Field.named discriminatorName (.enum options) with
    auto := true, readonly := true, hidden := true, origin := .discriminator }

/-- The discriminator of a root. -/
def rootDiscriminator (m : Model) (root : String) : Field :=
  { discriminator (members m root) with
    description := some "Subtypes have to be set to allow searching" }

/-- A declared field that gives way to the discriminator. -/
def replaced (name : String) : Warning :=
  ⟨.discriminator,
    s!"field '{name}.{discriminatorName}' was replaced by the inheritance discriminator"⟩

/-- The warnings for the field that an entity loses. -/
def replacements (e : Entity) : List Warning :=
  match e.field? discriminatorName with
  | some f => if f.origin = .declared then [replaced e.name] else []
  | none => []

/-- Takes the field of the discriminator's name from an entity of a hierarchy, and
gives the root the discriminator as its first field. -/
def discriminate (name : String) : Pass (List Warning) := do
  let m ← get
  match m.entity? name with
  | none => pure []
  | some e =>
    let isRoot := m.isRoot name
    if isRoot || !e.parents.isEmpty then
      let stripped := e.removeField discriminatorName
      Pass.change (·.changeEntity name fun _ => stripped)
      if isRoot then
        let complete ← stripped.insertField 0 (rootDiscriminator m name)
        Pass.change (·.changeEntity name fun _ => complete)
      pure (replacements e)
    else pure []

/-- Gives every root its discriminator. -/
def addDiscriminators : Pass (List Warning) := do
  let warnings ← (← get).entityNames.mapM discriminate
  pure warnings.flatten

end EntitySchema.Hierarchy
