import EntitySchema.Compiled
import EntitySchema.Json

/-! The JSON form of models and of their parts. `toJson` writes every member, in
a fixed order, and null for what is absent; `ofJson?` reads it back. A value with
variants is an object whose first member, `kind`, names the variant. -/

namespace EntitySchema

namespace Json

/-- What reads a member of an object, which has to be there. -/
def require (j : Json) (name : String) (read : Json → Option α) : Option α :=
  (j.member? name).bind read

/-- What reads a member that may be absent or null. -/
def optional (j : Json) (name : String) (read : Json → Option α) : Option (Option α) :=
  match j.present? name with
  | none => some none
  | some value => (read value).map some

/-- What reads a list. -/
def list? (read : Json → Option α) (j : Json) : Option (List α) := do (← j.items?).mapM read

/-- A value, or null. -/
def ofOption (toJson : α → Json) : Option α → Json
  | some a => toJson a
  | none => null

/-- The variant that an object says it is. -/
def kind? (j : Json) : Option String := j.require "kind" text?

end Json

open Json

/-! ### Fields -/

namespace Target

def members (t : Target) : List (String × Json) :=
  [("entity", str t.entity), ("field", ofText? t.field), ("labels", ofTexts t.labels),
    ("cascade", bool t.cascade)]

def toJson (t : Target) : Json := obj t.members

def ofJson? (j : Json) : Option Target := do
  pure {
    entity := ← j.require "entity" text?
    field := ← j.optional "field" text?
    labels := ← j.require "labels" texts?
    cascade := ← j.require "cascade" bool? }

end Target

namespace Link

def toJson (l : Link) : Json :=
  obj [("name", ofText? l.name), ("local_id", ofText? l.localId),
    ("remote_id", ofText? l.remoteId)]

def ofJson? (j : Json) : Option Link := do
  pure {
    name := ← j.optional "name" text?
    localId := ← j.optional "local_id" text?
    remoteId := ← j.optional "remote_id" text? }

end Link

namespace FieldType

/-- The word for a type without parameters. -/
def plain : List (String × FieldType) :=
  [("int", int), ("long", long), ("decimal", decimal), ("bool", bool), ("date", date),
    ("date_time", dateTime), ("text", text), ("file", file), ("hyperlink", hyperlink),
    ("email", email)]

def toJson : FieldType → Json
  | string length => obj [("kind", str "string"), ("length", num length)]
  | int => obj [("kind", str "int")]
  | long => obj [("kind", str "long")]
  | decimal => obj [("kind", str "decimal")]
  | bool => obj [("kind", str "bool")]
  | date => obj [("kind", str "date")]
  | dateTime => obj [("kind", str "date_time")]
  | text => obj [("kind", str "text")]
  | file => obj [("kind", str "file")]
  | hyperlink => obj [("kind", str "hyperlink")]
  | email => obj [("kind", str "email")]
  | enum options => obj [("kind", str "enum"), ("options", ofTexts options)]
  | xref target => obj (("kind", str "xref") :: target.members)
  | mref target link =>
    obj [("kind", str "mref"), ("target", target.toJson), ("link", link.toJson)]

def ofJson? (j : Json) : Option FieldType := do
  match ← j.kind? with
  | "string" => pure (string (← j.require "length" number?))
  | "enum" => pure (enum (← j.require "options" texts?))
  | "xref" => pure (xref (← Target.ofJson? j))
  | "mref" =>
    pure (mref (← j.require "target" Target.ofJson?) (← j.require "link" Link.ofJson?))
  | kind => plain.lookup kind

end FieldType

namespace Origin

def all : List Origin :=
  [declared, inheritedKey, constraintCopy, discriminator, linkTable, interfaceMref]

def name : Origin → String
  | declared => "declared"
  | inheritedKey => "inherited_key"
  | constraintCopy => "constraint_copy"
  | discriminator => "discriminator"
  | linkTable => "link_table"
  | interfaceMref => "interface_mref"

def ofJson? (j : Json) : Option Origin := do
  let word ← j.text?
  all.find? (·.name = word)

end Origin

namespace FieldFilter

def toJson (f : FieldFilter) : Json :=
  obj [("filter_type", str f.kind), ("field", str f.field), ("value", ofText? f.value)]

def ofJson? (j : Json) : Option FieldFilter := do
  pure {
    kind := ← j.require "filter_type" text?
    field := ← j.require "field" text?
    value := ← j.optional "value" text? }

end FieldFilter

namespace Field

def toJson (f : Field) : Json :=
  obj [("name", str f.name), ("label", str f.label), ("field_type", f.type.toJson),
    ("nillable", bool f.nillable), ("auto", bool f.auto), ("readonly", bool f.readonly),
    ("default_value", str f.defaultValue), ("default_code", ofText? f.defaultCode),
    ("hidden", bool f.hidden), ("system", bool f.system),
    ("description", ofText? f.description), ("filter", ofOption FieldFilter.toJson f.filter),
    ("origin", str f.origin.name)]

def ofJson? (j : Json) : Option Field := do
  pure {
    name := ← j.require "name" text?
    label := ← j.require "label" text?
    type := ← j.require "field_type" FieldType.ofJson?
    nillable := ← j.require "nillable" bool?
    auto := ← j.require "auto" bool?
    readonly := ← j.require "readonly" bool?
    defaultValue := ← j.require "default_value" text?
    defaultCode := ← j.optional "default_code" text?
    hidden := ← j.require "hidden" bool?
    system := ← j.require "system" bool?
    description := ← j.optional "description" text?
    filter := ← j.optional "filter" FieldFilter.ofJson?
    origin := ← j.require "origin" Origin.ofJson? }

end Field

/-! ### Entities -/

namespace Key

def toJson (k : Key) : Json :=
  obj [("fields", ofTexts k.fields), ("subclass", bool k.subclass),
    ("description", ofText? k.description)]

def ofJson? (j : Json) : Option Key := do
  pure {
    fields := ← j.require "fields" texts?
    subclass := ← j.require "subclass" bool?
    description := ← j.optional "description" text? }

end Key

namespace Index

def toJson (i : Index) : Json := obj [("name", str i.name), ("fields", ofTexts i.fields)]

def ofJson? (j : Json) : Option Index := do
  pure { name := ← j.require "name" text?, fields := ← j.require "fields" texts? }

end Index

namespace Entity

def toJson (e : Entity) : Json :=
  obj [("name", str e.name), ("label", str e.label), ("namespace", str e.scope),
    ("module", ofText? e.module), ("description", ofText? e.description),
    ("abstract", bool e.isAbstract), ("system", bool e.system),
    ("association", bool e.association), ("authorizable", bool e.authorizable),
    ("parents", ofTexts e.parents), ("implements", ofTexts e.implements),
    ("fields", arr (e.fields.map Field.toJson)), ("keys", arr (e.keys.map Key.toJson)),
    ("indices", arr (e.indices.map Index.toJson)), ("decorator", ofText? e.decorator),
    ("xref_labels", ofOption ofTexts e.labels),
    ("allocation_size", ofOption num e.allocationSize)]

def ofJson? (j : Json) : Option Entity := do
  pure {
    name := ← j.require "name" text?
    label := ← j.require "label" text?
    scope := ← j.require "namespace" text?
    module := ← j.optional "module" text?
    description := ← j.optional "description" text?
    isAbstract := ← j.require "abstract" bool?
    system := ← j.require "system" bool?
    association := ← j.require "association" bool?
    authorizable := ← j.require "authorizable" bool?
    parents := ← j.require "parents" texts?
    implements := ← j.require "implements" texts?
    fields := ← j.require "fields" (list? Field.ofJson?)
    keys := ← j.require "keys" (list? Key.ofJson?)
    indices := ← j.require "indices" (list? Index.ofJson?)
    decorator := ← j.optional "decorator" text?
    labels := ← j.optional "xref_labels" texts?
    allocationSize := ← j.optional "allocation_size" number? }

end Entity

/-! ### Modules, views and methods -/

namespace Module

def toJson (m : Module) : Json :=
  obj [("name", str m.name), ("label", str m.label), ("description", ofText? m.description),
    ("entities", ofTexts m.entities)]

def ofJson? (j : Json) : Option Module := do
  pure {
    name := ← j.require "name" text?
    label := ← j.require "label" text?
    description := ← j.optional "description" text?
    entities := ← j.require "entities" texts? }

end Module

namespace View

/-- A pair is a list of two texts. -/
def pairOfJson? : Json → Option (String × String)
  | arr [str a, str b] => some (a, b)
  | _ => none

def toJson (v : View) : Json :=
  obj [("name", str v.name), ("label", str v.label), ("entities", ofTexts v.entities),
    ("join_pairs", arr (v.joinPairs.map fun pair => arr [str pair.1, str pair.2]))]

def ofJson? (j : Json) : Option View := do
  pure {
    name := ← j.require "name" text?
    label := ← j.require "label" text?
    entities := ← j.require "entities" texts?
    joinPairs := ← j.require "join_pairs" (list? pairOfJson?) }

end View

namespace Parameter

def toJson (p : Parameter) : Json :=
  obj [("name", str p.name), ("label", str p.label), ("kind", str p.kind),
    ("default_value", ofText? p.defaultValue)]

def ofJson? (j : Json) : Option Parameter := do
  pure {
    name := ← j.require "name" text?
    label := ← j.require "label" text?
    kind := ← j.require "kind" text?
    defaultValue := ← j.optional "default_value" text? }

end Parameter

namespace QueryRule

def toJson (r : QueryRule) : Json :=
  obj [("field", str r.field), ("operator", str r.operator), ("parameter", str r.parameter)]

def ofJson? (j : Json) : Option QueryRule := do
  pure {
    field := ← j.require "field" text?
    operator := ← j.require "operator" text?
    parameter := ← j.require "parameter" text? }

end QueryRule

namespace Query

def toJson (q : Query) : Json :=
  obj [("entity", str q.entity), ("rules", arr (q.rules.map QueryRule.toJson))]

def ofJson? (j : Json) : Option Query := do
  pure {
    entity := ← j.require "entity" text?
    rules := ← j.require "rules" (list? QueryRule.ofJson?) }

end Query

namespace Method

def toJson (m : Method) : Json :=
  obj [("name", str m.name), ("description", ofText? m.description),
    ("parameters", arr (m.parameters.map Parameter.toJson)),
    ("return_type", ofText? m.returnType), ("query", ofOption Query.toJson m.query)]

def ofJson? (j : Json) : Option Method := do
  pure {
    name := ← j.require "name" text?
    description := ← j.optional "description" text?
    parameters := ← j.require "parameters" (list? Parameter.ofJson?)
    returnType := ← j.optional "return_type" text?
    query := ← j.optional "query" Query.ofJson? }

end Method

/-! ### Screens -/

namespace FormView

def toJson : FormView → Json
  | list => str "list"
  | edit => str "edit"

def ofJson? : Json → Option FormView
  | str "list" => some list
  | str "edit" => some edit
  | _ => none

end FormView

namespace SortOrder

def toJson : SortOrder → Json
  | asc => str "asc"
  | desc => str "desc"

def ofJson? : Json → Option SortOrder
  | str "asc" => some asc
  | str "desc" => some desc
  | _ => none

end SortOrder

namespace FormFilter

def toJson (f : FormFilter) : Json :=
  obj [("field", str f.field), ("filter_type", str f.kind), ("value", ofText? f.value)]

def ofJson? (j : Json) : Option FormFilter := do
  pure {
    field := ← j.require "field" text?
    kind := ← j.require "filter_type" text?
    value := ← j.optional "value" text? }

end FormFilter

namespace Form

def members (f : Form) : List (String × Json) :=
  [("entity", str f.entity), ("view", f.view.toJson), ("limit", num f.limit),
    ("readonly", bool f.readonly), ("header", ofText? f.header),
    ("description", ofText? f.description), ("commands", ofTexts f.commands),
    ("sort_by", ofText? f.sortBy), ("sort_order", ofOption SortOrder.toJson f.sortOrder),
    ("filter", ofOption FormFilter.toJson f.filter), ("hide_fields", ofTexts f.hideFields),
    ("compact_view", ofTexts f.compactView)]

def ofJson? (j : Json) : Option Form := do
  pure {
    entity := ← j.require "entity" text?
    view := ← j.require "view" FormView.ofJson?
    limit := ← j.require "limit" number?
    readonly := ← j.require "readonly" bool?
    header := ← j.optional "header" text?
    description := ← j.optional "description" text?
    commands := ← j.require "commands" texts?
    sortBy := ← j.optional "sort_by" text?
    sortOrder := ← j.optional "sort_order" SortOrder.ofJson?
    filter := ← j.optional "filter" FormFilter.ofJson?
    hideFields := ← j.require "hide_fields" texts?
    compactView := ← j.require "compact_view" texts? }

end Form

namespace Tree

def members (t : Tree) : List (String × Json) :=
  [("entity", str t.entity), ("parent_field", str t.parentField), ("id_field", str t.idField),
    ("label_field", str t.labelField), ("readonly", bool t.readonly)]

def ofJson? (j : Json) : Option Tree := do
  pure {
    entity := ← j.require "entity" text?
    parentField := ← j.require "parent_field" text?
    idField := ← j.require "id_field" text?
    labelField := ← j.require "label_field" text?
    readonly := ← j.require "readonly" bool? }

end Tree

namespace Plugin

def members (p : Plugin) : List (String × Json) :=
  [("plugin_type", str p.kind), ("flavor", ofText? p.flavor), ("readonly", bool p.readonly)]

def ofJson? (j : Json) : Option Plugin := do
  pure {
    kind := ← j.require "plugin_type" text?
    flavor := ← j.optional "flavor" text?
    readonly := ← j.require "readonly" bool? }

end Plugin

namespace ScreenKind

def toJson : ScreenKind → Json
  | root => obj [("kind", str "root")]
  | menu position => obj [("kind", str "menu"), ("position", ofText? position)]
  | form f => obj (("kind", str "form") :: f.members)
  | tree t => obj (("kind", str "tree") :: t.members)
  | plugin p => obj (("kind", str "plugin") :: p.members)

def ofJson? (j : Json) : Option ScreenKind := do
  match ← j.kind? with
  | "root" => pure root
  | "menu" => pure (menu (← j.optional "position" text?))
  | "form" => pure (form (← Form.ofJson? j))
  | "tree" => pure (tree (← Tree.ofJson? j))
  | "plugin" => pure (plugin (← Plugin.ofJson? j))
  | _ => none

end ScreenKind

namespace Screen

mutual

def toJson : Screen → Json
  | ⟨name, label, scope, group, groupRead, kind, children⟩ =>
    obj [("name", str name), ("label", str label), ("namespace", str scope),
      ("group", ofText? group), ("group_read", ofText? groupRead), ("kind", kind.toJson),
      ("children", arr (toJsons children))]

def toJsons : List Screen → List Json
  | [] => []
  | s :: rest => toJson s :: toJsons rest

end

mutual

def ofJson? : Json → Option Screen
  | obj members => do
    let j := obj members
    pure {
      name := ← j.require "name" text?
      label := ← j.require "label" text?
      scope := ← j.require "namespace" text?
      group := ← j.optional "group" text?
      groupRead := ← j.optional "group_read" text?
      kind := ← j.require "kind" ScreenKind.ofJson?
      children := ← childrenIn? members }
  | _ => none

/-- The screens that the member `children` holds. -/
def childrenIn? : List (String × Json) → Option (List Screen)
  | [] => none
  | (name, value) :: rest => if name = "children" then ofItems? value else childrenIn? rest

def ofItems? : Json → Option (List Screen)
  | arr items => ofJsons? items
  | _ => none

def ofJsons? : List Json → Option (List Screen)
  | [] => some []
  | j :: rest => do pure ((← ofJson? j) :: (← ofJsons? rest))

end

end Screen

/-! ### Models and what is compiled from them -/

namespace Model

def toJson (m : Model) : Json :=
  obj [("name", str m.name), ("label", str m.label), ("description", str m.description),
    ("entities", arr (m.entities.map Entity.toJson)),
    ("modules", arr (m.modules.map Module.toJson)), ("views", arr (m.views.map View.toJson)),
    ("methods", arr (m.methods.map Method.toJson)), ("ui", m.screens.toJson)]

def ofJson? (j : Json) : Option Model := do
  pure {
    name := ← j.require "name" text?
    label := ← j.require "label" text?
    description := ← j.require "description" text?
    entities := ← j.require "entities" (list? Entity.ofJson?)
    modules := ← j.require "modules" (list? Module.ofJson?)
    views := ← j.require "views" (list? View.ofJson?)
    methods := ← j.require "methods" (list? Method.ofJson?)
    screens := ← j.require "ui" Screen.ofJson? }

end Model

namespace Warning

def toJson (w : Warning) : Json := obj [("kind", str w.kind.name), ("message", str w.message)]

def ofJson? (j : Json) : Option Warning := do
  let word ← j.kind?
  pure {
    kind := ← WarningKind.all.find? (·.name = word)
    message := ← j.require "message" text? }

end Warning

namespace Compiled

def toJson (c : Compiled) : Json :=
  obj [("model", c.model.toJson), ("entity_order", ofTexts c.order),
    ("warnings", arr (c.warnings.map Warning.toJson))]

def ofJson? (j : Json) : Option Compiled := do
  pure {
    model := ← j.require "model" Model.ofJson?
    order := ← j.require "entity_order" texts?
    warnings := ← j.require "warnings" (list? Warning.ofJson?) }

end Compiled

end EntitySchema
