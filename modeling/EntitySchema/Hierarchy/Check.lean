import EntitySchema.Failure.Checking
import EntitySchema.Hierarchy

/-! What a hierarchy has to be. Interfaces exist and are abstract, parents exist
and are not, abstract entities have no parents, and neither relation runs in a
circle. A field declared again keeps its type. -/

namespace EntitySchema.Hierarchy

/-- Following the links from an entity leads back to it. -/
def inCycle (m : Model) (links : Entity → List String) (name : String) : Bool :=
  let linksOf := m.linksOf links
  (Closure.reach m.entityNames linksOf .depthFirst [] (linksOf name)).contains name

/-- An interface exists and is abstract. -/
def checkInterface (m : Model) (e : Entity) (name : String) : Except HierarchyFault Unit :=
  match m.entity? name with
  | none => .error (.unknownInterface e.name name)
  | some interface =>
    if interface.isAbstract then .ok () else .error (.concreteInterface e.name name)

/-- A parent exists and is not abstract. -/
def checkParent (m : Model) (e : Entity) (name : String) : Except HierarchyFault Unit :=
  match m.entity? name with
  | none => .error (.unknownParent e.name name)
  | some parent => if parent.isAbstract then .error (.abstractParent e.name name) else .ok ()

def checkEntity (m : Model) (e : Entity) : Except HierarchyFault Unit := do
  e.implements.forM (checkInterface m e)
  if e.isAbstract && !e.parents.isEmpty then throw (.abstractExtends e.name e.parents)
  e.parents.forM (checkParent m e)
  if inCycle m (·.parents) e.name then throw (.extendsItself e.name)
  if inCycle m (·.implements) e.name then throw (.implementsItself e.name)

/-- Checks the relations of every entity. -/
def check (m : Model) : Except HierarchyFault Unit := m.entities.forM (checkEntity m)

/-! ### Fields declared again -/

/-- The entities from which one inherits fields. -/
def sources (m : Model) (name : String) : List Entity := m.ancestors name ++ m.interfaces name

/-- A declared field has the type of the field of its name that the source declares. -/
def checkOverride (e : Entity) (f : Field) (source : Entity) : Except HierarchyFault Unit :=
  match source.field? f.name with
  | some other =>
    if other.origin = .declared && other.type.name ≠ f.type.name then
      .error (.retyped e.name f.name source.name other.type.name f.type.name)
    else .ok ()
  | none => .ok ()

/-- Checks the declared fields of every entity against those it inherits. -/
def checkOverrides (m : Model) : Except HierarchyFault Unit :=
  m.entities.forM fun e =>
    (e.fields.filter (·.origin = .declared)).forM fun f =>
      (sources m e.name).forM (checkOverride e f)

end EntitySchema.Hierarchy
