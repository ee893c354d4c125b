import EntitySchema.Schema.Entity
import EntitySchema.Xml.Document

/-! Schema documents. The root element names the model; inside it stand entities,
modules with entities of their own, views and methods, which join the model one
after the other. Reading the declarations of two documents in turn is reading
them from one. -/

namespace EntitySchema.Schema

open Xml (Element)

/-! ### Views -/

/-- The first text that stands in the list before as well. -/
def firstRepeated (seen : List String) : List String → Option String
  | [] => none
  | name :: rest => if seen.contains name then some name else firstRepeated (seen ++ [name]) rest

def readView (x : Element) : Except Failure View := do
  let name := Text.trim (← require x "name" "view")
  x.allowOnly ["name", "label", "entities"] s!"in view '{name}'"
  let entities := Text.splitList (x.attrOrEmpty "entities")
  if entities.length < 2 then throw (.schema (.smallView name))
  if let some entity := firstRepeated [] entities then
    throw (.schema (.repeatedViewEntity entity name))
  pure { name, label := (x.filled? "label").getD name, entities }

/-! ### Methods -/

def readParameter (method : String) (x : Element) : Except Failure Parameter := do
  x.allowOnly ["name", "type", "label", "default"] s!"in method '{method}'"
  let name ← require x "name" s!"parameter of method '{method}'"
  let typeName ← require x "type" s!"parameter '{name}' of method '{method}'"
  let some type := DeclaredType.ofName? typeName
    | throw (.schema (.unknownParameterType typeName name method))
  pure {
    name := Text.trim name
    label := (x.filled? "label").getD name
    kind := type.name.canonical
    defaultValue := x.attr? "default" }

def readRule (method : String) (x : Element) : Except Failure QueryRule := do
  let owner := s!"rule in query of method '{method}'"
  x.allowOnly ["field", "operator", "parameter"] s!"in query of method '{method}'"
  pure {
    field := Text.trim (← require x "field" owner)
    operator := Text.trim (← require x "operator" owner)
    parameter := Text.trim (← require x "parameter" owner) }

def readQuery (method : String) (x : Element) : Except Failure Query := do
  x.allowOnly ["entity"] s!"in query of method '{method}'"
  let entity ← require x "entity" s!"query of method '{method}'"
  pure {
    entity := Text.trim entity
    rules := ← (x.childrenNamed "rule").mapM (readRule method) }

/-- Takes in one element inside a method. -/
def addToMethod (method : Method) (x : Element) : Noting Method := do
  match x.name with
  | "description" =>
    let description := describe (method.description.getD "") x
    pure { method with description := Text.nonEmpty? description }
  | "parameter" =>
    let parameter ← readParameter method.name x
    if method.parameters.any (·.name = parameter.name) then
      throw (.schema (.repeatedParameter parameter.name method.name))
    pure { method with parameters := method.parameters ++ [parameter] }
  | "return" =>
    x.allowOnly ["type"] s!"in method '{method.name}'"
    let type ← require x "type" s!"return of method '{method.name}'"
    pure { method with returnType := some (Text.trim type) }
  | "query" => pure { method with query := some (← readQuery method.name x) }
  | other => do
    note (.skipped other s!" in method '{method.name}'")
    pure method

def readMethod (x : Element) : Noting Method := do
  let name := Text.trim (← require x "name" "method")
  x.allowOnly ["name", "description"] s!"in method '{name}'"
  x.children.foldlM addToMethod { name, description := x.filled? "description" }

/-! ### Modules -/

/-- Takes in one element inside a module. An entity joins the model at once, also
when the module turns out to be at fault later. -/
def addToModule (module : Module) (x : Element) : Reading Module := do
  match x.name with
  | "entity" =>
    let entity ← Reading.noting (readEntity x (some module.name))
    Reading.tryChange (·.addEntity entity)
    pure { module with entities := module.entities ++ [entity.name] }
  | "description" =>
    let description := describe (module.description.getD "") x
    pure { module with description := Text.nonEmpty? description }
  | other => do
    Reading.noting fun _ => note (.skipped other s!" in module '{module.name}'")
    pure module

def readModule (x : Element) : Reading Unit := do
  let name := Text.trim (← require x "name" "module")
  x.allowOnly ["name", "label"] s!"in module '{name}'"
  let m := (← get).model
  let path := s!"{m.name}.{name}"
  if m.modules.any (·.name = path) then throw (.schema (.repeatedModule path))
  let module ← x.children.foldlM addToModule
    { name := path, label := (x.filled? "label").getD name }
  Reading.change fun m => { m with modules := m.modules ++ [module] }

/-! ### Documents -/

/-- Takes in one element directly inside the root. -/
def addDeclaration (x : Element) : Reading Unit := do
  match x.name with
  | "entity" =>
    let entity ← Reading.noting (readEntity x none)
    Reading.tryChange (·.addEntity entity)
  | "module" => readModule x
  | "view" =>
    let view ← readView x
    Reading.change fun m => { m with views := m.views ++ [view] }
  | "method" =>
    let method ← Reading.noting fun _ => readMethod x
    if ((← get).model.method? method.name).isSome then
      throw (.schema (.repeatedMethod method.name))
    Reading.change fun m => { m with methods := m.methods ++ [method] }
  | "description" => Reading.change fun m => { m with description := describe m.description x }
  | other => Reading.noting fun _ => note (.skipped other " is not supported and")

/-- The name and the label that the root element gives the model and its screens. -/
def entitle (root : Element) (m : Model) : Model :=
  let m := match root.trimmed? "name" with
    | some name =>
      { m with name, label := name, screens := { m.screens with name, label := name } }
    | none => m
  match root.filled? "label" with
  | some label => { m with label }
  | none => m

/-- Reads a document, given its root element. -/
def readRoot (root : Element) : Reading Unit := do
  Reading.change (entitle root)
  root.children.forM addDeclaration

/-- Reads a schema document into the draft. -/
def read (text : String) : Reading Unit := do readRoot (← Xml.parse text)

end EntitySchema.Schema
