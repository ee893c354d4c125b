import EntitySchema.Entity
import EntitySchema.Screen
import EntitySchema.Text.Casing
import EntitySchema.Text.Listing

/-! Models: the entities of a schema, in the order of their declaration, with
modules, views and methods around them and the screens above them. Entities
refer to each other by name. -/

namespace EntitySchema

/-- A part of a model with entities of its own. -/
structure Module where
  /-- The name of the model, a dot and the name of the module. -/
  name : String
  label : String
  description : Option String := none
  entities : List String := []
  deriving DecidableEq, Repr, Inhabited

/-- A reading of two or more entities together. -/
structure View where
  name : String
  label : String
  entities : List String
  /-- A reference field of one entity of the view, and the entity it refers to. -/
  joinPairs : List (String × String) := []
  deriving DecidableEq, Repr, Inhabited

structure Parameter where
  name : String
  label : String
  kind : String
  defaultValue : Option String
  deriving DecidableEq, Repr, Inhabited

/-- A condition of a query. -/
structure QueryRule where
  field : String
  operator : String
  parameter : String
  deriving DecidableEq, Repr, Inhabited

structure Query where
  entity : String
  rules : List QueryRule
  deriving DecidableEq, Repr, Inhabited

/-- An operation that the model offers. -/
structure Method where
  name : String
  description : Option String := none
  parameters : List Parameter := []
  returnType : Option String := none
  query : Option Query := none
  deriving DecidableEq, Repr, Inhabited

structure Model where
  name : String
  label : String
  description : String := ""
  entities : List Entity := []
  modules : List Module := []
  views : List View := []
  methods : List Method := []
  screens : Screen
  deriving Repr, Inhabited

namespace Model

/-- A model with nothing in it. -/
def named (name : String) : Model := ⟨name, name, "", [], [], [], [], .rootOf name⟩

/-- The model that documents are read into. -/
def empty : Model := named "model"

/-! ### Entities by name -/

def entity? (m : Model) (name : String) : Option Entity := m.entities.find? (·.name = name)

def hasEntity (m : Model) (name : String) : Bool := m.entities.any (·.name = name)

/-- The entity of this name; if there is none, the first one whose name differs
in the case of letters only. -/
def entityIgnoringCase? (m : Model) (name : String) : Option Entity :=
  (m.entity? name).or (m.entities.find? fun e => Text.sameIgnoringCase e.name name)

def entityNames (m : Model) : List String := m.entities.map (·.name)

def addEntity (m : Model) (e : Entity) : Except DuplicateFault Model :=
  if m.hasEntity e.name then .error (.entity e.name m.name)
  else .ok { m with entities := m.entities ++ [e] }

/-- Changes the entity of this name. -/
def changeEntity (m : Model) (name : String) (change : Entity → Entity) : Model :=
  { m with entities := changeFirst (·.name = name) change m.entities }

/-- Changes the entity of this name, unless the change fails. -/
def tryEntity (m : Model) (name : String) (change : Entity → Except ε Entity) : Except ε Model :=
  match m.entity? name with
  | none => .ok m
  | some e => do
    let changed ← change e
    pure (m.changeEntity name fun _ => changed)

def method? (m : Model) (name : String) : Option Method := m.methods.find? (·.name = name)

end Model

end EntitySchema
