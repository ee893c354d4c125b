/-! What a fault is about. -/

namespace EntitySchema

inductive Category where
  /-- A document is not as it should be. -/
  | form
  /-- A field type is unknown, or a value is not of its type. -/
  | typing
  /-- A name leads nowhere, or to something that cannot be referred to. -/
  | reference
  /-- A key, a name or a relation breaks a rule. -/
  | constraint
  deriving DecidableEq, Repr

namespace Category

/-- The word for the category in structured output. -/
def name : Category → String
  | form => "syntax"
  | typing => "type"
  | reference => "reference"
  | constraint => "constraint"

/-- The words with which messages of the category begin. -/
def title : Category → String
  | form => "Syntax error"
  | typing => "Type error"
  | reference => "Reference error"
  | constraint => "Constraint error"

end Category

end EntitySchema
