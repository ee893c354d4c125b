import EntitySchema.Failure
import EntitySchema.Model
import EntitySchema.Warning

/-! Reading documents into a model. What was read before a fault stays: the model
as far as it came, and the warnings up to there. So both are kept beside the
outcome, also when it is a failure. -/

namespace EntitySchema

/-- Work that leaves warnings behind, whether it succeeds or fails. -/
abbrev Noting (α : Type) := ExceptT Failure (StateM (List Warning)) α

/-- Leaves a warning behind. -/
def note (w : Warning) : Noting Unit := modify (· ++ [w])

/-- A model that documents are read into, with the warnings so far. -/
structure Draft where
  model : Model
  warnings : List Warning := []
  deriving Inhabited

/-- Work on a draft, which keeps what it changed when it fails. -/
abbrev Reading (α : Type) := ExceptT Failure (StateM Draft) α

namespace Reading

/-- Work that needs the model only to look at. -/
def noting (work : Model → Noting α) : Reading α := ExceptT.mk fun draft =>
  let (outcome, warnings) := (work draft.model).run draft.warnings
  (outcome, { draft with warnings })

/-- Changes the model. -/
def change (f : Model → Model) : Reading Unit :=
  modify fun draft => { draft with model := f draft.model }

/-- Changes the model, unless the change fails. -/
def tryChange (f : Model → Except Failure Model) : Reading Unit := do
  let model ← f (← get).model
  modify fun draft => { draft with model }

end Reading

end EntitySchema
