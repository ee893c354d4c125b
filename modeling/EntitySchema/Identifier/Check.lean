import EntitySchema.Identifier
import EntitySchema.Model

/-! The names of a model: each is a legal identifier, and in the end each fits the
dialect. -/

namespace EntitySchema.Identifier

/-- The names of a field and of the entity that it refers to are legal. -/
def checkField (dialect : Dialect) (entity : String) (f : Field) : Except Fault Unit := do
  check s!"field of entity '{entity}':" f.name dialect
  match f.targetEntity? with
  | some target =>
    if target = "" then pure ()
    else check s!"xref_entity of '{entity}.{f.name}':" target dialect
  | none => pure ()

def checkEntity (dialect : Dialect) (e : Entity) : Except Fault Unit := do
  check "entity" e.name dialect
  e.fields.forM (checkField dialect e.name)

/-- The names of the model, its modules, entities and fields are legal. Of a module
the last part of its path counts. -/
def checkModel (dialect : Dialect) (m : Model) : Except Fault Unit := do
  check "model" m.name dialect
  m.modules.forM fun module => check "module" (Text.afterLast '.' module.name) dialect
  m.entities.forM (checkEntity dialect)

/-! ### Length -/

/-- The names of an entity and of its fields fit the limit. -/
def checkLengths (dialect : Dialect) (limit : Nat) (e : Entity) : Except Fault Unit := do
  if limit < e.name.length then throw (.tooLong s!"entity name '{e.name}'" limit dialect)
  e.fields.forM fun f =>
    if limit < f.name.length then
      throw (.tooLong s!"field name '{e.name}.{f.name}'" limit dialect)
    else pure ()

/-- The names of all entities and fields fit the dialect. -/
def checkSizes (dialect : Dialect) (m : Model) : Except Fault Unit :=
  match dialect.limit? with
  | some limit => m.entities.forM (checkLengths dialect limit)
  | none => .ok ()

end EntitySchema.Identifier
