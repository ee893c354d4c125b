import EntitySchema.Failure.Checking
import EntitySchema.Hierarchy

/-! Views. The entities of a view exist; the fields by which two neighbours in it
refer to each other are recorded as its join pairs. -/

namespace EntitySchema.Views

/-- The fields of one entity that refer to another, each with that other. -/
def joins (m : Model) (referring referred : String) : List (String × String) :=
  ((m.allFields referring).filter (·.targetEntity? = some referred)).map fun f =>
    (s!"{referring}.{f.name}", referred)

/-- The join pairs of neighbours, both ways. -/
def joinPairs (m : Model) : List String → List (String × String)
  | a :: b :: rest => joins m a b ++ joins m b a ++ joinPairs m (b :: rest)
  | _ => []

/-- The view with its join pairs. -/
def complete (m : Model) (view : View) : Except ReferenceFault View :=
  match view.entities.find? fun name => !m.hasEntity name with
  | some name => .error (.unknownViewEntity view.name name)
  | none => .ok { view with joinPairs := joinPairs m view.entities }

/-- Completes all views, or none. -/
def completeAll (m : Model) : Except ReferenceFault Model := do
  let views ← m.views.mapM (complete m)
  pure { m with views }

end EntitySchema.Views
