import EntitySchema.Closure
import EntitySchema.Model

/-! The hierarchy of a model. Entities extend their parents and implement
interfaces, both by name; a name may stand for no entity, and the relations may
run in circles. The questions answered here follow these names: which entities
stand above or below one, and which fields and keys are visible on it. -/

namespace EntitySchema

open Closure (reach)

namespace Model

/-! ### Above and below -/

/-- The names that an entity of this name leads to, none if there is no such entity. -/
def linksOf (m : Model) (links : Entity → List String) (name : String) : List String :=
  match m.entity? name with
  | some e => links e
  | none => []

/-- The entities that the waiting names lead to along links, without this one. -/
def entitiesFrom (m : Model) (links : Entity → List String) (strategy : Closure.Strategy)
    (name : String) (waiting : List String) : List Entity :=
  (reach m.entityNames (m.linksOf links) strategy [name] waiting).filterMap m.entity?

/-- The entities that one extends, each before its own parents. -/
def ancestors (m : Model) (name : String) : List Entity :=
  m.entitiesFrom (·.parents) .depthFirst name (m.linksOf (·.parents) name)

/-- The interfaces that an entity or one of its ancestors implements, and those
that these implement; nearer ones come first. -/
def interfaces (m : Model) (name : String) : List Entity :=
  m.entitiesFrom (·.implements) .breadthFirst name
    (m.linksOf (·.implements) name ++ (m.ancestors name).flatMap (·.implements))

/-- The interfaces that an entity implements itself, and those that these
implement. -/
def ownInterfaces (m : Model) (name : String) : List Entity :=
  m.entitiesFrom (·.implements) .breadthFirst name (m.linksOf (·.implements) name)

/-- The first entity stands among the ancestors of the second. -/
def isAbove (m : Model) (upper lower : String) : Bool :=
  (m.ancestors lower).any (·.name = upper)

/-- The entities that have this one among their ancestors, in model order. -/
def descendants (m : Model) (name : String) : List Entity :=
  m.entities.filter fun e => e.name ≠ name && m.isAbove name e.name

/-- The last ancestor without parents; the entity itself if there is none. -/
def rootOf? (m : Model) (name : String) : Option Entity :=
  ((m.ancestors name).reverse.find? (·.parents.isEmpty)).or (m.entity? name)

/-- A concrete entity without parents that other entities extend. -/
def isRoot (m : Model) (name : String) : Bool :=
  match m.entity? name with
  | some e => !e.isAbstract && e.parents.isEmpty && !(m.descendants name).isEmpty
  | none => false

/-- The entities whose fields are visible on one: its interfaces, its ancestors
from the root down, and itself. -/
def lineage (m : Model) (name : String) : List Entity :=
  m.interfaces name ++ (m.ancestors name).reverse ++ (m.entity? name).toList

/-! ### Visible fields and keys -/

/-- Takes the place of the field of the same name, or the last place. -/
def placeField (f : Field) : List Field → List Field
  | [] => [f]
  | g :: rest => if g.name = f.name then f :: rest else g :: placeField f rest

/-- Own and inherited fields. A field declared again further down the hierarchy
takes the place of the inherited one. -/
def allFields (m : Model) (name : String) : List Field :=
  ((m.lineage name).flatMap (·.fields)).foldl (fun fields f => placeField f fields) []

def visibleField? (m : Model) (entity field : String) : Option Field :=
  (m.allFields entity).find? (·.name = field)

/-- The visible field of this name; if there is none, the first one whose name
differs in the case of letters only. -/
def visibleFieldIgnoringCase? (m : Model) (entity field : String) : Option Field :=
  let fields := m.allFields entity
  (fields.find? (·.name = field)).or (fields.find? fun f => Text.sameIgnoringCase f.name field)

/-- Adds a key, unless there is one over the same fields. -/
def placeKey (key : Key) (keys : List Key) : List Key :=
  if keys.any (·.fields = key.fields) then keys else keys ++ [key]

/-- Own and inherited keys, each list of fields once. -/
def allKeys (m : Model) (name : String) : List Key :=
  ((m.lineage name).flatMap (·.keys)).foldl (fun keys key => placeKey key keys) []

/-- The first key of the hierarchy of an entity. -/
def primaryKey? (m : Model) (name : String) : Option Key := (m.allKeys name).head?

/-- The visible fields that the primary key names. -/
def primaryKeyFields (m : Model) (name : String) : List Field :=
  match m.primaryKey? name with
  | some key => key.fields.filterMap (m.visibleField? name)
  | none => []

/-- The entity and the field that a dotted path names, both up to letter case. -/
def findPath? (m : Model) (path : String) : Option (Entity × Field) := do
  let (entityName, fieldName) ← Text.splitAtFirst '.' path
  let entity ← m.entityIgnoringCase? entityName
  let field ← m.visibleFieldIgnoringCase? entity.name fieldName
  pure (entity, field)

end Model

end EntitySchema
