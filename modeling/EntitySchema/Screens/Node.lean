import EntitySchema.Draft
import EntitySchema.Hierarchy
import EntitySchema.Text.Numeral
import EntitySchema.Xml.Element

/-! Screen elements, each without the elements inside it. Forms and trees are about
entities of the model, and their fields are named as the model names them,
whatever the letter case in the document. -/

namespace EntitySchema.Screens

open Xml (Element)

/-! ### Forms -/

/-- How a form opens: as it says, else as a list unless there is something in it. -/
def readView (form : String) (x : Element) : Except ScreenFault FormView :=
  match Text.lower (Text.trim (x.attrOrEmpty "view")) with
  | "" => .ok (if x.children.isEmpty then .list else .edit)
  | "edit" | "record" => .ok .edit
  | "list" => .ok .list
  | other => .error (.unknownFormView form other)

def readLimit (form : String) (x : Element) : Except ScreenFault Nat :=
  match x.filled? "limit" with
  | none => .ok Form.defaultLimit
  | some value => match Text.Numeral.read? Text.Numeral.max64 (Text.trim value) with
    | some n => .ok n
    | none => .error (.badFormLimit form value)

def readSortOrder (form : String) (x : Element) : Except ScreenFault (Option SortOrder) :=
  match (x.trimmed? "sortorder").map Text.lower with
  | none => .ok none
  | some "asc" => .ok (some .asc)
  | some "desc" => .ok (some .desc)
  | some other => .error (.badFormOrder form other)

/-- The condition on the records that a form shows, if it sets one. A condition
without a value is kept, with a warning. -/
def readFilter (form : String) (x : Element) : Noting (Option FormFilter) := do
  if !x.flag "filter" then return none
  match x.filled? "filterfield", x.filled? "filtertype" with
  | some field, some kind =>
    let value := x.filled? "filtervalue"
    if value.isNone then note ⟨.filter, s!"form '{form}': filtervalue is missing"⟩
    return some { field, kind, value }
  | _, _ => throw (.screen (.incompleteFormFilter form))

/-- The fields in an attribute, as the entity names them. -/
def readFields (m : Model) (form : String) (entity : Entity) (x : Element) (key : String) :
    Except ScreenFault (List String) :=
  (Text.splitList (x.attrOrEmpty key)).mapM fun name =>
    match m.visibleFieldIgnoringCase? entity.name name with
    | some f => .ok f.name
    | none => .error (.unknownFormField form name key entity.name)

/-- The entity that a form is about. -/
def formEntity (m : Model) (form : String) (x : Element) : Except ScreenFault Entity :=
  match x.trimmed? "entity" with
  | none => .error (.formWithoutEntity form)
  | some name => match m.entityIgnoringCase? name with
    | some e => .ok e
    | none => .error (.unknownFormEntity form name)

def readForm (m : Model) (form : String) (x : Element) : Noting (Form × Entity) := do
  let entity ← formEntity m form x
  let view ← readView form x
  let limit ← readLimit form x
  let sortOrder ← readSortOrder form x
  let filter ← readFilter form x
  let hideFields ← readFields m form entity x "hide_fields"
  let compact ← readFields m form entity x "compact_view"
  let result : Form := {
    entity := entity.name
    view
    limit
    readonly := x.flag "readonly"
    header := x.filled? "header"
    description := x.filled? "description"
    commands := Text.splitList (x.attrOrEmpty "commands")
    sortBy := x.filled? "sortby"
    sortOrder
    filter
    hideFields
    compactView := compact.map fun name => s!"{entity.name}_{name}" }
  pure (result, entity)

/-! ### Trees and plugins -/

def requireInTree (tree : String) (x : Element) (key : String) : Except ScreenFault String :=
  match x.trimmed? key with
  | some value => .ok value
  | none => .error (.missingInTree tree key)

/-- A field of a tree, as the entity names it. -/
def treeField (m : Model) (tree : String) (entity : Entity) (name : String) :
    Except ScreenFault String :=
  match m.visibleFieldIgnoringCase? entity.name name with
  | some f => .ok f.name
  | none => .error (.unknownTreeField tree name entity.name)

def readTree (m : Model) (tree : String) (x : Element) : Except ScreenFault (Tree × Entity) := do
  let entityName ← requireInTree tree x "entity"
  let parentName ← requireInTree tree x "parentfield"
  let idName ← requireInTree tree x "idfield"
  let labelName ← requireInTree tree x "labelfield"
  let some entity := m.entityIgnoringCase? entityName
    | throw (.unknownTreeEntity tree entityName)
  let result : Tree := {
    entity := entity.name
    parentField := ← treeField m tree entity parentName
    idField := ← treeField m tree entity idName
    labelField := ← treeField m tree entity labelName
    readonly := x.flagOr "readonly" true }
  pure (result, entity)

def readPlugin (plugin : String) (x : Element) : Except ScreenFault Plugin :=
  match x.trimmed? "type" with
  | some kind => .ok { kind, flavor := x.filled? "flavor", readonly := x.flag "readonly" }
  | none => .error (.untypedPlugin plugin)

/-! ### Screens -/

/-- The name of a screen; a form without one has the name of its entity. -/
def readName (parent : String) (x : Element) : Except ScreenFault String :=
  let own := x.trimmed? "name"
  match if x.name = "form" then own.or (x.trimmed? "entity") else own with
  | some name => .ok name
  | none => .error (.unnamed x.name parent)

/-- What kind of screen an element is, with the scope that it belongs to. -/
def readKind (m : Model) (name : String) (x : Element) : Noting (ScreenKind × String) := do
  match x.name with
  | "menu" => pure (.menu (x.filled? "position"), m.name)
  | "form" =>
    let (form, entity) ← readForm m name x
    pure (.form form, entity.scope)
  | "tree" =>
    let (tree, entity) ← readTree m name x
    pure (.tree tree, entity.scope)
  | _ =>
    let plugin ← readPlugin name x
    pure (.plugin plugin, m.name)

/-- The screen that an element declares, with nothing inside. The group that may
read is not the group that may also write. -/
def readScreen (m : Model) (parent : String) (x : Element) : Noting Screen := do
  let name ← readName parent x
  let group := x.filled? "group"
  let groupRead := x.filled? "groupRead"
  if group.isSome && group = groupRead then throw (.screen (.bothRights name))
  let (kind, scope) ← readKind m name x
  let label := (x.filled? "label").getD name
  pure { name, label, scope, group, groupRead, kind, children := [] }

end EntitySchema.Screens
