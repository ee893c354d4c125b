import EntitySchema.Entity
import EntitySchema.Failure.Checking
import EntitySchema.Failure.Reading
import EntitySchema.Identifier
import EntitySchema.Xml.Fault

/-! Why a compilation ends without a model. A failure is a cause; its category and
its message are read off it. -/

namespace EntitySchema

inductive Failure where
  | document (fault : Xml.Fault)
  /-- A document that another one includes cannot be had. -/
  | inclusion (file reason : String)
  | schema (fault : SchemaFault)
  | screen (fault : ScreenFault)
  | identifier (fault : Identifier.Fault)
  | duplicate (fault : DuplicateFault)
  | hierarchy (fault : HierarchyFault)
  | key (fault : KeyFault)
  | reference (fault : ReferenceFault)
  | link (fault : LinkFault)
  deriving DecidableEq, Repr

namespace Failure

def category : Failure → Category
  | document _ | inclusion .. => .form
  | schema fault => fault.category
  | screen fault => fault.category
  | identifier _ | duplicate _ => .constraint
  | hierarchy fault => fault.category
  | key fault => fault.category
  | reference fault => fault.category
  | link fault => fault.category

/-- What is wrong, without a word on the category. -/
def detail : Failure → String
  | document fault => fault.detail
  | inclusion _ reason => reason
  | schema fault => fault.detail
  | screen fault => fault.detail
  | identifier fault => fault.detail
  | duplicate fault => fault.detail
  | hierarchy fault => fault.detail
  | key fault => fault.detail
  | reference fault => fault.detail
  | link fault => fault.detail

def message (f : Failure) : String :=
  match f with
  | document (.document position fault) =>
    s!"XML parsing error at position {position}: {fault.message}"
  | inclusion file reason => s!"Failed to include '{file}': {reason}"
  | _ => s!"{f.category.title}: {f.detail}"

end Failure

instance : MonadLift (Except Xml.Fault) (Except Failure) := ⟨Except.mapError .document⟩
instance : MonadLift (Except SchemaFault) (Except Failure) := ⟨Except.mapError .schema⟩
instance : MonadLift (Except ScreenFault) (Except Failure) := ⟨Except.mapError .screen⟩
instance : MonadLift (Except Identifier.Fault) (Except Failure) := ⟨Except.mapError .identifier⟩
instance : MonadLift (Except DuplicateFault) (Except Failure) := ⟨Except.mapError .duplicate⟩
instance : MonadLift (Except HierarchyFault) (Except Failure) := ⟨Except.mapError .hierarchy⟩
instance : MonadLift (Except KeyFault) (Except Failure) := ⟨Except.mapError .key⟩
instance : MonadLift (Except ReferenceFault) (Except Failure) := ⟨Except.mapError .reference⟩
instance : MonadLift (Except LinkFault) (Except Failure) := ⟨Except.mapError .link⟩

end EntitySchema
