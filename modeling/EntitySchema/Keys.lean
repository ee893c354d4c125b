import EntitySchema.Failure.Checking
import EntitySchema.Hierarchy

/-! Keys and labels of entities. Every field that a key names is there, every
concrete entity has one field that numbers its records, and every entity with a
key has labels: the declared ones, else the fields of its second key, else those
of its first. -/

namespace EntitySchema.Keys

/-- Every field that a key of the entity names is visible on it. -/
def checkFields (e : Entity) (fields : List Field) : Except KeyFault Unit :=
  (e.keys.flatMap (·.fields)).forM fun name =>
    if fields.any (·.name = name) then .ok () else .error (.unknownField name e.name)

/-- Every field of the entity that numbers records is in a visible key. -/
def checkIdentityKeys (e : Entity) (keys : List Key) : Except KeyFault Unit :=
  (e.fields.filter (·.isIdentity)).forM fun f =>
    if keys.any (·.fields.contains f.name) then .ok () else .error (.looseIdentity e.name f.name)

/-- A concrete entity sees exactly one field that numbers its records. -/
def checkIdentity (e : Entity) (fields : List Field) : Except KeyFault Unit :=
  match (fields.filter (·.isIdentity)).map (·.name) with
  | [_] => .ok ()
  | names => if e.isAbstract then .ok () else .error (.identities e.name names)

/-- The default of an enumeration is one of its options. -/
def checkDefault (e : Entity) (f : Field) : Except KeyFault Unit :=
  match f.type with
  | .enum options =>
    if f.defaultValue ≠ "" && !options.contains f.defaultValue then
      .error (.badDefault f.defaultValue e.name f.name options)
    else .ok ()
  | _ => .ok ()

def checkEntity (m : Model) (e : Entity) : Except KeyFault Unit := do
  let fields := m.allFields e.name
  checkFields e fields
  checkIdentityKeys e (m.allKeys e.name)
  checkIdentity e fields
  e.fields.forM (checkDefault e)

/-- Checks the keys of every entity. -/
def check (m : Model) : Except KeyFault Unit := m.entities.forM (checkEntity m)

/-! ### Labels -/

/-- The labels of an entity without any: the fields of its second key, else those
of its first. -/
def defaultLabels : List Key → List String
  | _ :: second :: _ => second.fields
  | [first] => first.fields
  | [] => []

/-- The labels that an entity gets, if it gets any. -/
def labelsFor (m : Model) (e : Entity) : Except KeyFault (Option (List String)) := do
  match m.allKeys e.name with
  | [] => if e.isAbstract then pure none else throw (.noPrimaryKey e.name)
  | keys =>
    match e.labels with
    | none => pure (some (defaultLabels keys))
    | some labels =>
      labels.forM fun label =>
        if (m.visibleField? e.name label).isSome then pure ()
        else throw (.unknownLabel label e.name)
      pure none

/-- Gives labels to the entities without any. -/
def assignLabels (m : Model) : Except KeyFault Model := do
  let assigned ← m.entities.mapM fun e => do pure (e.name, ← labelsFor m e)
  pure <| assigned.foldl (fun m' (name, labels) =>
    match labels with
    | some labels => m'.changeEntity name fun e => { e with labels := some labels }
    | none => m') m

end EntitySchema.Keys
