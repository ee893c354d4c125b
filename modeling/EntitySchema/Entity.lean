import EntitySchema.Field
import EntitySchema.Text.Casing

/-! Entities: the logical tables of a model, with their fields, keys and indices.
The operations here keep what readers rely on: no second field of a name, no
second key over the same fields, no second index of a name. -/

namespace EntitySchema

/-- A combination of fields that no two records share. -/
structure Key where
  fields : List String
  /-- It holds within a subclass only. -/
  subclass : Bool := false
  description : Option String := none
  deriving DecidableEq, Repr, Inhabited

structure Index where
  name : String
  fields : List String
  deriving DecidableEq, Repr, Inhabited

structure Entity where
  name : String
  label : String
  /-- The dotted path of the module, or the name of the model. -/
  scope : String := ""
  module : Option String := none
  description : Option String := none
  isAbstract : Bool := false
  system : Bool := false
  /-- The entity holds the pairs of a many-to-many field. -/
  association : Bool := false
  authorizable : Bool := false
  /-- The entities that this one extends. -/
  parents : List String := []
  /-- The interfaces that this one implements. -/
  implements : List String := []
  fields : List Field := []
  keys : List Key := []
  indices : List Index := []
  decorator : Option String := none
  /-- The fields shown when another entity refers to this one. -/
  labels : Option (List String) := none
  allocationSize : Option Nat := none
  deriving DecidableEq, Repr, Inhabited

/-- A name, or a key, that is there already. -/
inductive DuplicateFault where
  | field (field entity : String)
  | key (fields : List String) (entity : String)
  | entity (entity model : String)
  deriving DecidableEq, Repr

def DuplicateFault.detail : DuplicateFault → String
  | .field name owner => s!"duplicate field '{name}' in entity '{owner}'"
  | .key fields owner =>
    let list := ",".intercalate fields
    s!"duplicate unique key ({list}) in entity '{owner}'"
  | .entity name owner => s!"duplicate entity '{name}' in model '{owner}'"

/-- Changes the first item that passes the test. -/
def changeFirst (test : α → Bool) (change : α → α) : List α → List α
  | [] => []
  | a :: rest => if test a then change a :: rest else a :: changeFirst test change rest

namespace Entity

/-- An entity without fields, labelled by its name. -/
def named (name : String) : Entity := ⟨name, name, "", none, none, false, false, false, false,
  [], [], [], [], [], none, none, none⟩

/-- The entity's own field of this name. -/
def field? (e : Entity) (name : String) : Option Field := e.fields.find? (·.name = name)

/-- The entity's first own field of this name, in any letter case. -/
def fieldIgnoringCase? (e : Entity) (name : String) : Option Field :=
  e.fields.find? fun f => Text.sameIgnoringCase f.name name

def hasField (e : Entity) (name : String) : Bool := e.fields.any (·.name = name)

/-- The entity has a key over these fields, in this order. -/
def hasKey (e : Entity) (fields : List String) : Bool := e.keys.any (·.fields = fields)

/-- Puts a field before the one at `position`, or last. -/
def insertField (e : Entity) (position : Nat) (f : Field) : Except DuplicateFault Entity :=
  if e.hasField f.name then .error (.field f.name e.name)
  else .ok { e with fields := e.fields.take position ++ f :: e.fields.drop position }

def addField (e : Entity) (f : Field) : Except DuplicateFault Entity :=
  e.insertField e.fields.length f

/-- The entity without its first field of this name. -/
def removeField (e : Entity) (name : String) : Entity :=
  { e with fields := e.fields.eraseP (·.name = name) }

/-- Puts a key before the one at `position`, or last. -/
def insertKey (e : Entity) (position : Nat) (key : Key) : Except DuplicateFault Entity :=
  if e.hasKey key.fields then .error (.key key.fields e.name)
  else .ok { e with keys := e.keys.take position ++ key :: e.keys.drop position }

def addKey (e : Entity) (key : Key) : Except DuplicateFault Entity :=
  e.insertKey e.keys.length key

def hasIndex (e : Entity) (name : String) : Bool := e.indices.any (·.name = name)

/-- Adds an index, unless there is one of its name. -/
def addIndex (e : Entity) (index : Index) : Entity :=
  if e.hasIndex index.name then e else { e with indices := e.indices ++ [index] }

/-- One name for another, and any third for itself. -/
def rename (old new name : String) : String := if name = old then new else name

/-- Gives the first field called `old` a new name, together with every mention
of it in keys, indices and labels. -/
def renameField (e : Entity) (old new : String) : Entity :=
  { e with
    fields := changeFirst (·.name = old) (fun f => { f with name := new }) e.fields
    keys := e.keys.map fun key => { key with fields := key.fields.map (rename old new) }
    indices := e.indices.map fun index => { index with fields := index.fields.map (rename old new) }
    labels := e.labels.map fun labels => labels.map (rename old new) }

/-- The entity's own first key. -/
def ownPrimaryKey? (e : Entity) : Option Key := e.keys.head?

end Entity

end EntitySchema
