import EntitySchema.Draft
import EntitySchema.Text.Listing
import EntitySchema.Text.Numeral
import EntitySchema.Xml.Element

/-! Field elements of schema documents. A field element declares the field itself
and, by its attributes, an index over the field and a key. -/

namespace EntitySchema.Schema

open Xml (Element)

/-- Attributes that a field element may have. -/
def fieldAttributes : List String := [
  "type", "name", "label", "auto", "nillable", "optional", "readonly", "default", "description",
  "desc", "unique", "hidden", "length", "index", "enum_options", "default_code", "xref",
  "xref_entity", "xref_field", "xref_label", "xref_name", "mref_name", "mref_localid",
  "mref_remoteid", "filter", "filtertype", "filterfield", "filterField", "filtervalue",
  "xref_cascade", "allocationSize", "jpaCascade"]

/-- The value of an attribute that must not be missing or blank. -/
def require (x : Element) (key owner : String) : Except SchemaFault String :=
  match x.filled? key with
  | some value => .ok value
  | none => .error (.missing key owner)

/-- The number in an attribute that is not blank, if it is there. -/
def number? (x : Element) (key owner : String) (largest : Nat) : Except SchemaFault (Option Nat) :=
  match x.filled? key with
  | none => .ok none
  | some value => match Text.Numeral.read? largest (Text.trim value) with
    | some n => .ok (some n)
    | none => .error (.noNumber key value owner)

/-- The options of an enumeration, with or without brackets around the list. -/
def readOptions (x : Element) (owner : String) : Except SchemaFault (List String) :=
  let raw := (Text.trim (x.attrOrEmpty "enum_options")).toList
  let raw := match raw with
    | '[' :: rest => rest
    | cs => cs
  let raw := if raw.getLast? = some ']' then raw.dropLast else raw
  match Text.splitList (String.ofList raw) with
  | [] => .error (.noOptions owner)
  | options => .ok options

/-- Whether deleting the target deletes the record. -/
def readCascade (x : Element) (owner : String) : Except SchemaFault Bool :=
  match x.attr? "xref_cascade" with
  | none => .ok false
  | some raw =>
    let value := Text.trim raw
    if value = "" then .ok false
    else if Text.sameIgnoringCase value "true" then .ok true
    else .error (.badCascade value owner)

/-- What a reference points at. The entity may be part of the field's path; a
many-to-many field that names its link entity may leave it out. -/
def readTarget (x : Element) (owner : String) (many : Bool) : Except SchemaFault Target := do
  let path := (x.trimmed? "xref_field").or (x.trimmed? "xref")
  let (entity, field) := match x.trimmed? "xref_entity", path with
    | none, some p => match Text.splitAtFirst '.' p with
      | some (e, f) => (some e, some f)
      | none => (none, path)
    | e, _ => (e, path)
  let entity ← match entity with
    | some e => pure e
    | none =>
      if !many then throw (.untargetedXref owner)
      else if (x.filled? "mref_name").isSome then pure ""
      else throw (.untargetedMref owner)
  let cascade ← readCascade x owner
  pure { entity, field, labels := Text.splitList (x.attrOrEmpty "xref_label"), cascade }

/-- The type of a field, with what its attributes say about it. -/
def readType (x : Element) (owner : String) : TypeName → Except SchemaFault FieldType
  | .string => do
    let length ← number? x "length" owner Text.Numeral.max64
    pure (.string (length.getD Field.defaultLength))
  | .int => pure .int
  | .long => pure .long
  | .decimal => pure .decimal
  | .bool => pure .bool
  | .date => pure .date
  | .dateTime => pure .dateTime
  | .text => pure .text
  | .file => pure .file
  | .hyperlink => pure .hyperlink
  | .email => pure .email
  | .enum => do pure (.enum (← readOptions x owner))
  | .xref => do pure (.xref (← readTarget x owner false))
  | .mref => do
    pure (.mref (← readTarget x owner true) {
      name := x.trimmed? "mref_name"
      localId := x.trimmed? "mref_localid"
      remoteId := x.trimmed? "mref_remoteid" })

/-- The condition on the records that a field offers, if it sets one. A condition
without a value is kept, with a warning. -/
def readFilter (x : Element) (owner : String) : Noting (Option FieldFilter) := do
  if !x.flag "filter" then return none
  match x.filled? "filtertype", (x.filled? "filterfield").or (x.filled? "filterField") with
  | some kind, some field =>
    let value := x.filled? "filtervalue"
    if value.isNone then
      note ⟨.filter, s!"filtervalue is missing for filter on {owner}"⟩
    return some { kind, field, value }
  | _, _ => throw (.schema (.incompleteFilter owner))

/-- The field that an element declares. Its filter and the rule that somebody or
something has to fill it in are left to `addField`. -/
def plainField (x : Element) (name : String) (type : FieldType) (identity : Bool) : Field where
  name
  label := (x.filled? "label").getD name
  type
  nillable := !identity && x.flag (if (x.attr? "nillable").isSome then "nillable" else "optional")
  auto := identity || x.flag "auto"
  readonly := identity || x.flag "readonly"
  hidden := x.flag "hidden"
  defaultValue := if identity then "" else x.attrOrEmpty "default"
  defaultCode := x.filled? "default_code"
  description := (x.filled? "description").or (x.filled? "desc")

/-- A hidden field has to be filled in by something. -/
def isStranded (f : Field) : Bool :=
  f.hidden && !f.nillable && f.defaultValue = "" && !f.auto

/-- Adds the field that an element declares, and the index and the key that its
attributes ask for. -/
def addField (entity : Entity) (x : Element) : Noting Entity := do
  let name := Text.trim (← require x "name" s!"a field in entity '{entity.name}'")
  let owner := s!"field '{name}' of entity '{entity.name}'"
  x.allowOnly fieldAttributes s!"on {owner}"
  let typeName ← require x "type" owner
  let some declared := DeclaredType.ofName? typeName
    | throw (.schema (.unknownType typeName owner))
  let type ← readType x owner declared.name
  let filter ← readFilter x owner
  let field := { plainField x name type declared.identity with filter }
  if isStranded field then throw (.schema (.hiddenField owner))
  let entity ← entity.addField field
  let entity := if x.flag "index" then entity.addIndex ⟨name, [name]⟩ else entity
  if declared.identity || x.flag "unique" then entity.addKey { fields := [name] }
  else pure entity

end EntitySchema.Schema
