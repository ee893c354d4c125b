/-! Fields: the columns of an entity. A field has a type, flags for those who fill
it in, and an origin that says whether it was declared or made by a pass. Only
references look beyond the field itself: they name the entity and the field they
point at and the labels that are shown for it. -/

namespace EntitySchema

/-- What a reference points at. -/
structure Target where
  entity : String
  /-- The field referred to; the primary key of the entity when it is not given. -/
  field : Option String := none
  /-- The fields shown for a referenced record. -/
  labels : List String := []
  /-- Deleting the referenced record deletes the referring one. -/
  cascade : Bool := false
  deriving DecidableEq, Repr, Inhabited

/-- The names behind a many-to-many field. -/
structure Link where
  /-- The entity that holds the pairs. -/
  name : Option String := none
  /-- Its column for the owner of the field. -/
  localId : Option String := none
  /-- Its column for the target of the field. -/
  remoteId : Option String := none
  deriving DecidableEq, Repr, Inhabited

inductive FieldType where
  | string (length : Nat)
  | int
  | long
  | decimal
  | bool
  | date
  | dateTime
  | text
  | file
  | hyperlink
  | email
  | enum (options : List String)
  /-- A reference to one record. -/
  | xref (target : Target)
  /-- A reference to any number of records. -/
  | mref (target : Target) (link : Link)
  deriving DecidableEq, Repr, Inhabited

namespace FieldType

/-- The name of the type in schema documents. -/
def name : FieldType → String
  | string _ => "string"
  | int => "int"
  | long => "long"
  | decimal => "decimal"
  | bool => "bool"
  | date => "date"
  | dateTime => "datetime"
  | text => "text"
  | file => "file"
  | hyperlink => "hyperlink"
  | email => "email"
  | enum _ => "enum"
  | xref _ => "xref"
  | mref _ _ => "mref"

/-- What the type refers to, if it is a reference. -/
def target? : FieldType → Option Target
  | xref target => some target
  | mref target _ => some target
  | _ => none

/-- The names behind the field, if it is many-to-many. -/
def link? : FieldType → Option Link
  | mref _ link => some link
  | _ => none

def isMref : FieldType → Bool
  | mref _ _ => true
  | _ => false

def isReference : FieldType → Bool
  | xref _ | mref _ _ => true
  | _ => false

/-- The same reference, pointing elsewhere; other types stay as they are. -/
def withTarget (target : Target) : FieldType → FieldType
  | xref _ => xref target
  | mref _ link => mref target link
  | other => other

/-- The same reference with its target changed; other types stay as they are. -/
def mapTarget (change : Target → Target) : FieldType → FieldType
  | xref target => xref (change target)
  | mref target link => mref (change target) link
  | other => other

/-- The same many-to-many reference with its link changed. -/
def mapLink (change : Link → Link) : FieldType → FieldType
  | mref target link => mref target (change link)
  | other => other

end FieldType

/-- Where a field comes from. -/
inductive Origin where
  | declared
  /-- A copy of the primary key of a parent or an interface. -/
  | inheritedKey
  /-- A copy of an inherited field that a key of the entity needs. -/
  | constraintCopy
  /-- The field that tells the subclasses of a hierarchy apart. -/
  | discriminator
  /-- A column of a link entity. -/
  | linkTable
  /-- A many-to-many field moved down from an interface. -/
  | interfaceMref
  deriving DecidableEq, Repr, Inhabited

/-- A condition on the records that a field offers. -/
structure FieldFilter where
  kind : String
  field : String
  value : Option String
  deriving DecidableEq, Repr, Inhabited

structure Field where
  name : String
  label : String
  type : FieldType
  /-- May be left empty. -/
  nillable : Bool := false
  /-- Filled in by the system. -/
  auto : Bool := false
  readonly : Bool := false
  defaultValue : String := ""
  defaultCode : Option String := none
  hidden : Bool := false
  system : Bool := false
  description : Option String := none
  filter : Option FieldFilter := none
  origin : Origin := .declared
  deriving DecidableEq, Repr, Inhabited

namespace Field

/-- The length of a text field that declares none. -/
def defaultLength : Nat := 255

/-- A field that is labelled by its name. -/
def named (name : String) (type : FieldType) : Field := ⟨name, name, type, false, false, false, "",
  none, false, false, none, none, .declared⟩

def target? (f : Field) : Option Target := f.type.target?

/-- The name of the entity that the field refers to, which may be empty. -/
def targetEntity? (f : Field) : Option String := f.target?.map (·.entity)

def isMref (f : Field) : Bool := f.type.isMref

/-- The field numbers the records of its entity. A copy of a parent's key keeps
the flag of the key, so it counts although it is a reference. -/
def isIdentity (f : Field) : Bool := f.auto && (f.type = .int || f.origin = .inheritedKey)

/-- A hidden copy of the field that refers to the field itself, on `entity`. -/
def referenceCopy (f : Field) (entity : String) (origin : Origin) : Field :=
  { f with
    type := .xref { entity, field := some f.name, labels := [f.name] }
    hidden := true
    origin }

end Field

end EntitySchema
