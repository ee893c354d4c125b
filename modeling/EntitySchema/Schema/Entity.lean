import EntitySchema.Hierarchy
import EntitySchema.Schema.Field

/-! Entity elements of schema documents: attributes, fields, keys and indices. A
key may name a field that the entity inherits; the field is then copied into it,
so the entity's ancestors have to stand before it. -/

namespace EntitySchema.Schema

open Xml (Element)

/-- Attributes that an entity element may have. -/
def entityAttributes : List String := [
  "name", "label", "extends", "implements", "abstract", "description", "system", "decorator",
  "xref_label", "allocationSize"]

/-- Attributes that a key element may have. -/
def keyAttributes : List String := ["fields", "subclass", "description"]

/-- A description with the text of one more description element, on a new line. -/
def describe (description : String) (x : Element) : String :=
  let text := x.content
  if text = "" then description
  else if description = "" then text
  else s!"{description}\n{text}"

/-- The field of this name that an entity sees on its parents and interfaces. -/
def inheritedField? (m : Model) (entity : Entity) (name : String) : Option Field :=
  (entity.parents ++ entity.implements).findSome? fun above => m.visibleField? above name

/-- Copies the field that a key names into the entity, unless it is there. -/
def addKeyField (m : Model) (entity : Entity) (name : String) : Except Failure Entity := do
  if entity.hasField name then pure entity
  else match inheritedField? m entity name with
    | none => throw (.schema (.unknownKeyField name entity.name))
    | some f => entity.addField { f with system := true, origin := .constraintCopy }

/-- Adds the key that an element declares: the fields of its attribute, then those
of the elements in it, which are not looked up. -/
def addKey (m : Model) (entity : Entity) (x : Element) : Except Failure Entity := do
  x.allowOnly keyAttributes s!"in entity '{entity.name}'"
  let listed := Text.splitList (x.attrOrEmpty "fields")
  let entity ← listed.foldlM (addKeyField m) entity
  let inside ← (x.childrenNamed "keyfield").mapM fun keyField =>
    match keyField.trimmed? "name" with
    | some name => (pure name : Except Failure String)
    | none => throw (.schema (.unnamedKeyField entity.name))
  let fields := listed ++ inside
  if fields.isEmpty then throw (.schema (.emptyKey entity.name))
  entity.addKey { fields, subclass := x.flag "subclass", description := x.filled? "description" }

/-- Adds the keys that the elements inside an entity declare. -/
def addKeys (m : Model) (entity : Entity) (x : Element) : Except Failure Entity :=
  (x.childrenNamed "unique").foldlM (addKey m) entity

/-- One more field of an index. -/
def addIndexField (entity : Entity) (index : String) (fields : List String) (x : Element) :
    Except SchemaFault (List String) := do
  let some name := x.trimmed? "name" | throw (.unnamedIndexField index entity.name)
  if !entity.hasField name then throw (.unknownIndexField name index entity.name)
  if fields.contains name then throw (.repeatedIndexField name index entity.name)
  pure (fields ++ [name])

/-- Adds the index that an element declares. -/
def addIndex (entity : Entity) (x : Element) : Except SchemaFault Entity := do
  let name := Text.trim (← require x "name" s!"index in entity '{entity.name}'")
  let fields ← (x.childrenNamed "indexfield").foldlM (addIndexField entity name) []
  if fields.isEmpty then throw (.emptyIndex name entity.name)
  pure (entity.addIndex { name, fields })

/-- Adds the indices of an entity, which stand in one element. -/
def addIndices (entity : Entity) (x : Element) : Except SchemaFault Entity :=
  match x.childrenNamed "indices" with
  | [] => .ok entity
  | [indices] => (indices.childrenNamed "index").foldlM addIndex entity
  | _ => .error (.manyIndices entity.name)

/-- The entity that an element declares, without its fields, keys and indices. -/
def plainEntity (m : Model) (x : Element) (module : Option String) : Except Failure Entity := do
  let name := Text.trim (← require x "name" "entity")
  x.allowOnly entityAttributes s!"in entity '{name}'"
  let allocationSize ← number? x "allocationSize" s!"entity '{name}'" Text.Numeral.max32
  let description :=
    (x.childrenNamed "description").foldl describe ((x.filled? "description").getD "")
  pure {
    name
    label := (x.filled? "label").getD name
    scope := module.getD m.name
    module
    description := Text.nonEmpty? description
    isAbstract := x.flag "abstract"
    system := x.flag "system"
    parents := Text.splitList (x.attrOrEmpty "extends")
    implements := Text.splitList (x.attrOrEmpty "implements")
    decorator := x.filled? "decorator"
    labels := ((x.filled? "xref_label").map Text.splitList).filter (!·.isEmpty)
    allocationSize }

/-- Warns of the elements that mean nothing inside an entity. -/
def noteSkipped (x : Element) (entity : String) : Noting Unit :=
  x.children.forM fun child =>
    if ["field", "unique", "indices", "description"].contains child.name then pure ()
    else note (.skipped child.name s!" in entity '{entity}'")

/-- The entity that an element declares. The model holds the entities before it. -/
def readEntity (x : Element) (module : Option String) (m : Model) : Noting Entity := do
  let entity ← plainEntity m x module
  let entity ← (x.childrenNamed "field").foldlM addField entity
  let entity ← addKeys m entity x
  let entity ← addIndices entity x
  noteSkipped x entity.name
  pure entity

end EntitySchema.Schema
