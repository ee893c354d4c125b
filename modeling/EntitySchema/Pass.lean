import EntitySchema.Failure
import EntitySchema.Model

/-! Passes over a model. A pass changes the model step by step; when a step fails,
what the steps before it changed stays, so the model is kept beside the outcome
also when that is a failure. -/

namespace EntitySchema

/-- Work on a model, which keeps what it changed when it fails. -/
abbrev Pass (α : Type) := ExceptT Failure (StateM Model) α

namespace Pass

/-- Looks at the model and changes nothing. -/
def check (f : Model → Except Failure α) : Pass α := do
  let outcome := f (← get)
  outcome

/-- One step: the whole change, or none of it. -/
def step (f : Model → Except Failure Model) : Pass Unit := do
  let changed ← f (← get)
  set changed

/-- A change that cannot fail. -/
def change (f : Model → Model) : Pass Unit := modify f

end Pass

end EntitySchema
