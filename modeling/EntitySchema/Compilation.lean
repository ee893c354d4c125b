import EntitySchema.Compiled
import EntitySchema.Completion
import EntitySchema.Dependency
import EntitySchema.Schema
import EntitySchema.Screens
import EntitySchema.Screens.Check

/-! Compilation: schema documents and at most one screen document become one
completed model, with its entities in an order in which everything comes after
what it depends on. The first failure ends it. -/

namespace EntitySchema.Compilation

/-- The interface that entities with access rights implement, if it is declared. -/
def authorizableName : String := "Authorizable"

/-- The entity with access rights. -/
def authorize (hasInterface : Bool) (e : Entity) : Entity :=
  let e := { e with authorizable := true }
  if hasInterface && e.name ≠ authorizableName && !e.implements.contains authorizableName then
    { e with implements := e.implements ++ [authorizableName] }
  else e

/-- The interface of that name is declared, and is an interface. -/
def hasInterface (m : Model) : Bool := (m.entity? authorizableName).any (·.isAbstract)

/-- Gives access rights to the entities of these names. -/
def authorizeAll (names : List String) (m : Model) : Except ReferenceFault Model :=
  names.foldlM (fun m' name =>
    if m'.hasEntity name then .ok (m'.changeEntity name (authorize (hasInterface m)))
    else .error (.unknownAuthorizable name)) m

/-- Reads all schema documents into one draft. -/
def readSchemas (schemas : List String) : Reading Unit := schemas.forM Schema.read

/-- The model that the schema documents declare, completed. -/
def completeSchemas (options : Options) (schemas : List String) : Except Failure Draft := do
  let (outcome, draft) := (readSchemas schemas).run { model := .empty }
  outcome
  let m ← authorizeAll options.authorizable draft.model
  let (outcome, model) := (Pass.complete options).run m
  let warnings ← outcome
  pure { model, warnings := draft.warnings ++ warnings }

/-- The draft with the screens of a document, checked. -/
def addScreens (dialect : Dialect) (library : Screens.Library) (text : String) (draft : Draft) :
    Except Failure Draft := do
  let (outcome, draft) := (Screens.read dialect library text).run draft
  outcome
  let warnings ← Screens.check draft.model
  pure { draft with warnings := draft.warnings ++ warnings }

/-- Compiles schema documents and at most one screen document. -/
def compile (options : Options) (library : Screens.Library) (schemas : List String)
    (screens : Option String) : Except Failure Compiled := do
  let draft ← completeSchemas options schemas
  let draft ← match screens with
    | some text => addScreens options.dialect library text draft
    | none => pure draft
  let order := Dependency.order draft.model
  pure {
    model := draft.model
    order := order.names
    warnings := draft.warnings ++ order.warning.toList }

end EntitySchema.Compilation
