import EntitySchema.Model
import EntitySchema.Warning

/-! The outcome of a compilation: the completed model, the names of its entities
in an order in which everything comes after what it depends on, and warnings. -/

namespace EntitySchema

structure Compiled where
  model : Model
  order : List String
  warnings : List Warning
  deriving Repr, Inhabited

end EntitySchema
