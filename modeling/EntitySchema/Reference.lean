import EntitySchema.Failure.Checking
import EntitySchema.Hierarchy
import EntitySchema.Pass

/-! References. A reference is resolved against the entity it points at: the entity
exists and has a table, the field referred to is in one of its keys, and every
label names something that the entity can show. -/

namespace EntitySchema.Reference

/-- The text with underscores for dots. -/
def underscored (s : String) : String :=
  String.ofList (s.toList.map fun c => if c = '.' then '_' else c)

/-- The labels under which a key field can be shown: its name, or for a reference
its name before each of the labels of the reference. -/
def labelsOfField (f : Field) : List String :=
  match f.target? with
  | none => [f.name]
  | some target =>
    if target.labels.isEmpty then [f.name ++ "_" ++ target.field.getD ""]
    else target.labels.map fun label => f.name ++ "_" ++ underscored label

/-- The labels that can be shown for an entity, from the fields of all its keys. -/
def candidateLabels (m : Model) (entity : String) : List String :=
  (((m.allKeys entity).flatMap (·.fields)).flatMap fun name =>
    match m.visibleField? entity name with
    | some f => labelsOfField f
    | none => []).eraseDups

/-- In lower case, the candidate is the label or ends in an underscore and the label. -/
def suits (label candidate : String) : Bool :=
  let label := Text.lower label
  let candidate := Text.lower candidate
  candidate = label || ("_" ++ label).toList.isSuffixOf candidate.toList

/-- The name by which a label is shown for the target, whose field `key` is
referred to. -/
def resolveLabel (m : Model) (owner : String) (target : Entity) (key label : String) :
    Except ReferenceFault String :=
  if label.toList.contains '.' then
    match m.findPath? label with
    | some (entity, field) => .ok s!"{entity.name}.{field.name}"
    | none => .error (.unknownPath label owner)
  else if label = key then .ok label
  else match m.visibleFieldIgnoringCase? target.name label with
    | some field => .ok field.name
    | none =>
      let candidates := candidateLabels m target.name
      if candidates.contains label then .ok label
      else if candidates.isEmpty then .error (.nothingToShow label owner target.name)
      else match candidates.filter (suits label) with
        | [single] => .ok single
        | _ => .error (.unknownLabel label owner target.name candidates)

/-- The entity that a reference points at. -/
def targetEntity (m : Model) (owner name : String) : Except ReferenceFault Entity :=
  match m.entity? name with
  | some e => .ok e
  | none => .error (.unknownEntity name owner ((m.entityIgnoringCase? name).map (·.name)))

/-- The name of the field that a reference refers to: the declared one, else the
only field of the target's primary key. -/
def targetFieldName (m : Model) (owner : String) (target : Entity) :
    Option String → Except ReferenceFault String
  | some name => .ok name
  | none =>
    match m.primaryKey? target.name with
    | none => .error (.targetWithoutKey owner target.name)
    | some key => match key.fields with
      | [single] => .ok single
      | fields => .error (.targetWithLongKey owner target.name fields)

/-- The field of the target that a reference refers to: it is in a key, and not of
type text. -/
def targetField (m : Model) (owner : String) (target : Entity) (name : String) :
    Except ReferenceFault Field :=
  let visible := (m.allFields target.name).map (·.name)
  match m.visibleFieldIgnoringCase? target.name name with
  | none => .error (.unknownField name owner target.name visible)
  | some f =>
    if !(m.allKeys target.name).any (·.fields.contains f.name) then
      .error (.notUnique owner target.name f.name visible)
    else if f.type = .text then .error (.textField owner target.name f.name)
    else .ok f

/-- What a reference field of an entity points at, resolved. -/
def resolve (m : Model) (owner : Entity) (f : Field) : Except ReferenceFault Target := do
  let context := s!"{owner.name}.{f.name}"
  let some declared := f.target? | throw (.notReference context)
  if owner.isAbstract && f.isMref then throw (.interfaceMref owner.name f.name)
  let entity ← targetEntity m context declared.entity
  if entity.isAbstract && f.origin ≠ .inheritedKey then
    throw (.abstractTarget context entity.name)
  let name ← targetFieldName m context entity declared.field
  let field ← targetField m context entity name
  let labels ←
    if declared.labels.isEmpty then pure [field.name]
    else declared.labels.mapM (resolveLabel m context entity field.name)
  pure { entity := entity.name, field := some field.name, labels, cascade := declared.cascade }

/-- The field with its reference resolved; other fields stay as they are. -/
def resolveField (m : Model) (owner : Entity) (f : Field) : Except ReferenceFault Field :=
  if f.type.isReference then do
    let target ← resolve m owner f
    pure { f with type := f.type.withTarget target }
  else pure f

/-- Resolves the references of the entity of this name, all or none. -/
def resolveEntity (name : String) (m : Model) : Except Failure Model :=
  m.tryEntity name fun owner => do
    let fields ← (owner.fields.mapM (resolveField m owner)).mapError Failure.reference
    pure { owner with fields }

/-- Resolves the references of the entities of these names, one after the other. -/
def resolveEntities (names : List String) : Pass Unit :=
  names.forM fun name => Pass.step (resolveEntity name)

/-- Resolves all references, in model order. -/
def resolveAll : Pass Unit := do resolveEntities (← get).entityNames

/-! ### Labels of the target -/

/-- A reference that shows first the field it refers to shows the labels of its
target instead, if the target has any. -/
def relabel (m : Model) (target : Target) : Target :=
  match target.field, target.labels with
  | some field, first :: _ =>
    if first = field then
      match (m.entity? target.entity).bind (·.labels) with
      | some labels => { target with labels }
      | none => target
    else target
  | _, _ => target

/-- Shows the labels of the targets. -/
def propagateLabels (m : Model) : Model :=
  { m with entities := m.entities.map fun e =>
    { e with fields := e.fields.map fun f => { f with type := f.type.mapTarget (relabel m) } } }

end EntitySchema.Reference
