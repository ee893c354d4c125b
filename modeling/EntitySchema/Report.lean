import EntitySchema.Json.Form
import EntitySchema.Json.Printer

/-! Reports on a compiled model: a line for each entity, a block for each entity, or
the whole model as JSON. -/

namespace EntitySchema

inductive ReportFormat where
  | compact
  | pretty
  | json
  deriving DecidableEq, Repr, Inhabited

namespace ReportFormat

def all : List ReportFormat := [compact, pretty, json]

def name : ReportFormat → String
  | compact => "compact"
  | pretty => "pretty"
  | json => "json"

/-- The format of exactly this name. -/
def ofName? (text : String) : Option ReportFormat := all.find? (·.name = text)

end ReportFormat

namespace Report

/-- Words in brackets after a blank, or nothing if there are none. -/
def bracketed (left right : String) : List String → String
  | [] => ""
  | words => " " ++ left ++ ", ".intercalate words ++ right

/-- What is special about an entity. -/
def entityFlags (e : Entity) : String :=
  bracketed "(" ")" ((if e.isAbstract then ["abstract"] else []) ++
    (if e.association then ["link"] else []) ++
    (if e.authorizable then ["authorizable"] else []))

/-- What is special about a field. -/
def fieldMarks (f : Field) : String :=
  bracketed "[" "]" ((if f.auto then ["auto"] else []) ++
    (if f.nillable then ["nillable"] else []) ++ (if f.hidden then ["hidden"] else []))

/-- A type with its parameters. -/
def typeLabel : FieldType → String
  | .string length => s!"string({length})"
  | .enum options =>
    let list := "|".intercalate options
    s!"enum[{list}]"
  | .xref target =>
    let field := target.field.getD "?"
    s!"xref->{target.entity}.{field}"
  | .mref target link =>
    let name := link.name.getD "?"
    s!"mref->{target.entity} via {name}"
  | other => other.name

/-- The entities of a compiled model in their order. -/
def ordered (c : Compiled) : List Entity := c.order.filterMap c.model.entity?

def heading (c : Compiled) : String :=
  s!"\n✅ Compiled model '{c.model.name}' with {c.order.length} entit(y/ies):\n"

def warningLine (w : Warning) : String := s!"  - [{w.kind.title}] {w.message}\n"

def warningLines : List Warning → String
  | [] => ""
  | warnings =>
    s!"\n⚠️  {warnings.length} warning(s):\n" ++ String.join (warnings.map warningLine)

/-! ### A line for each entity -/

def compactLine (e : Entity) (number : Nat) : String :=
  let fields := ", ".intercalate (e.fields.map fun f => f.name ++ ":" ++ f.type.name)
  s!"  {number}. {e.name}{entityFlags e} [{fields}]\n"

def compact (c : Compiled) : String :=
  heading c ++ String.join (((ordered c).zipIdx 1).map fun (e, i) => compactLine e i) ++
    warningLines c.warnings

/-! ### A block for each entity -/

/-- A line that lists names, unless there are none. -/
def nameLine (title : String) : List String → String
  | [] => ""
  | names =>
    let list := ", ".intercalate names
    s!"  {title}: {list}\n"

def fieldLine (f : Field) : String := s!"    - {f.name}: {typeLabel f.type}{fieldMarks f}\n"

def keyLine (key : Key) : String :=
  let list := ", ".intercalate key.fields
  s!"  Unique: ({list})\n"

def prettyBlock (e : Entity) (number : Nat) : String :=
  s!"\nEntity {number}: {e.name}{entityFlags e}\n" ++ nameLine "Extends" e.parents ++
    nameLine "Implements" e.implements ++ s!"  Fields: {e.fields.length}\n" ++
    String.join (e.fields.map fieldLine) ++ String.join (e.keys.map keyLine)

def pretty (c : Compiled) : String :=
  heading c ++ String.join (((ordered c).zipIdx 1).map fun (e, i) => prettyBlock e i) ++
    warningLines c.warnings

/-! ### JSON -/

def json (c : Compiled) : String := c.toJson.pretty ++ "\n"

/-- The report in a format. -/
def render (c : Compiled) : ReportFormat → String
  | .compact => compact c
  | .pretty => pretty c
  | .json => json c

end Report

end EntitySchema
