import EntitySchema.Failure.Category

/-! Why a model that was read is refused: its hierarchy, its keys, its references
or its many-to-many fields are at fault. -/

namespace EntitySchema

inductive HierarchyFault where
  | unknownInterface (entity interface : String)
  | concreteInterface (entity interface : String)
  | abstractExtends (entity : String) (parents : List String)
  | unknownParent (entity parent : String)
  | abstractParent (entity parent : String)
  | extendsItself (entity : String)
  | implementsItself (entity : String)
  | parentWithoutKey (entity parent : String)
  /-- A field declared again with another type. -/
  | retyped (entity field source oldType newType : String)
  deriving DecidableEq, Repr

namespace HierarchyFault

def category : HierarchyFault → Category
  | unknownInterface .. | concreteInterface .. | unknownParent .. | abstractParent .. => .reference
  | _ => .constraint

def detail : HierarchyFault → String
  | unknownInterface entity interface =>
    s!"entity '{entity}' implements unknown interface '{interface}'"
  | concreteInterface entity interface =>
    s!"entity '{entity}' implements '{interface}', which is not abstract; use extends"
  | abstractExtends entity parents =>
    let list := ",".intercalate parents
    s!"abstract entity '{entity}' cannot extend '{list}'; use implements"
  | unknownParent entity parent => s!"entity '{entity}' extends unknown entity '{parent}'"
  | abstractParent entity parent =>
    s!"entity '{entity}' extends '{parent}', which is abstract; use implements"
  | extendsItself entity => s!"inheritance cycle: entity '{entity}' extends itself"
  | implementsItself entity => s!"inheritance cycle: interface '{entity}' implements itself"
  | parentWithoutKey entity parent =>
    s!"entity '{entity}' extends '{parent}', which has no primary key"
  | retyped entity field source oldType newType =>
    s!"field '{entity}.{field}' overrides '{source}.{field}' but changes its type " ++
      s!"from {oldType} to {newType}"

end HierarchyFault

inductive KeyFault where
  | unknownField (field entity : String)
  /-- A field that numbers the records but is in no key. -/
  | looseIdentity (entity field : String)
  /-- A concrete entity needs one field that numbers its records. -/
  | identities (entity : String) (fields : List String)
  | badDefault (value entity field : String) (options : List String)
  | noPrimaryKey (entity : String)
  | unknownLabel (label entity : String)
  deriving DecidableEq, Repr

namespace KeyFault

def category : KeyFault → Category
  | unknownField .. | unknownLabel .. => .reference
  | badDefault .. => .typing
  | _ => .constraint

def detail : KeyFault → String
  | unknownField field entity => s!"key field '{field}' of entity '{entity}' does not exist"
  | looseIdentity entity field => s!"auto field '{entity}.{field}' must be part of a unique key"
  | identities entity fields =>
    let count := fields.length
    let list := ", ".intercalate fields
    s!"entity '{entity}' must have exactly one auto-increment field, found {count} ({list})"
  | badDefault value entity field options =>
    let list := ",".intercalate options
    s!"default '{value}' of enum field '{entity}.{field}' is not one of its options [{list}]"
  | noPrimaryKey entity => s!"entity '{entity}' has no primary key; add an autoid field or a unique"
  | unknownLabel label entity =>
    s!"xref_label '{label}' of entity '{entity}' is not one of its fields"

end KeyFault

/-- A fault in a reference; `owner` is its entity and its name, with a dot between. -/
inductive ReferenceFault where
  | notReference (owner : String)
  | interfaceMref (entity field : String)
  /-- No such entity; `similar` differs from the name in letter case only. -/
  | unknownEntity (entity owner : String) (similar : Option String)
  | abstractTarget (owner entity : String)
  | targetWithoutKey (owner entity : String)
  | targetWithLongKey (owner entity : String) (key : List String)
  | unknownField (field owner entity : String) (fields : List String)
  | notUnique (owner entity field : String) (fields : List String)
  | textField (owner entity field : String)
  | unknownPath (label owner : String)
  | nothingToShow (label owner entity : String)
  | unknownLabel (label owner entity : String) (candidates : List String)
  | unknownViewEntity (view entity : String)
  | unknownAuthorizable (entity : String)
  deriving DecidableEq, Repr

namespace ReferenceFault

def category : ReferenceFault → Category
  | notReference .. => .typing
  | interfaceMref .. => .constraint
  | _ => .reference

def detail : ReferenceFault → String
  | notReference owner => s!"{owner} is not a reference"
  | interfaceMref entity field =>
    s!"interface '{entity}' cannot own mref field '{field}'; move it to the implementing entities"
  | unknownEntity entity owner none => s!"xref_entity '{entity}' of {owner} does not exist"
  | unknownEntity entity owner (some similar) =>
    s!"xref_entity '{entity}' of {owner} does not exist; " ++
      s!"entity names are case-sensitive, did you mean '{similar}'?"
  | abstractTarget owner entity =>
    s!"{owner} refers to '{entity}', which is abstract and has no table"
  | targetWithoutKey owner entity => s!"{owner} refers to '{entity}', which has no primary key"
  | targetWithLongKey owner entity key =>
    let list := ",".intercalate key
    s!"{owner} refers to '{entity}', whose primary key ({list}) has more than one field; " ++
      "set xref_field"
  | unknownField field owner entity fields =>
    let list := ", ".intercalate fields
    s!"xref_field '{field}' of {owner} does not exist in '{entity}' (fields: {list})"
  | notUnique owner entity field fields =>
    let list := ", ".intercalate fields
    s!"foreign key {owner} refers to '{entity}.{field}', which is not unique (fields: {list})"
  | textField owner entity field =>
    s!"foreign key {owner} refers to '{entity}.{field}', which is of type text"
  | unknownPath label owner => s!"xref_label '{label}' of {owner} does not exist in the model"
  | nothingToShow label owner entity =>
    s!"xref_label '{label}' of {owner} is not a field of '{entity}' and '{entity}' " ++
      "has no unique fields to use. Did you set unique=true?"
  | unknownLabel label owner entity candidates =>
    let list := ", ".intercalate candidates
    s!"xref_label '{label}' of {owner} is not a field of '{entity}'; valid labels are: {list}"
  | unknownViewEntity view entity => s!"view '{view}' refers to unknown entity '{entity}'"
  | unknownAuthorizable entity => s!"authorizable entity '{entity}' does not exist"

end ReferenceFault

/-- A fault in a many-to-many field or in the entity that holds its pairs. -/
inductive LinkFault where
  | unnamed (owner : String)
  | untargeted (owner link : String)
  | sameColumns (owner column : String)
  | noColumns (owner : String)
  | ownerWithoutKey (owner entity : String)
  /-- The declared link entity does not refer to one of the two sides. -/
  | missingColumn (link owner entity : String)
  /-- Every name that could be made from the base is taken. -/
  | noFreeName (base : String)
  deriving DecidableEq, Repr

namespace LinkFault

def category : LinkFault → Category
  | untargeted .. | missingColumn .. => .reference
  | _ => .constraint

def detail : LinkFault → String
  | unnamed owner => s!"mref {owner} has no mref_name"
  | untargeted owner link =>
    s!"mref {owner} has no xref_entity and link entity '{link}' does not name one"
  | sameColumns owner column => s!"mref_localid and mref_remoteid of {owner} are both '{column}'"
  | noColumns owner => s!"mref {owner} has no mref_localid/mref_remoteid"
  | ownerWithoutKey owner entity => s!"mref {owner} needs a primary key on '{entity}'"
  | missingColumn link owner entity =>
    s!"link entity '{link}' of {owner} has no column referring to '{entity}'"
  | noFreeName base => s!"no free link name for '{base}'"

end LinkFault

end EntitySchema
