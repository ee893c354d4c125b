/-! Warnings: what was noticed on the way to a model without standing in its way. -/

namespace EntitySchema

inductive WarningKind where
  /-- Entities that no order puts after everything they depend on. -/
  | dependencyCycle
  /-- A filter without a value. -/
  | filter
  /-- A form hides a field that has to be filled in. -/
  | hiddenField
  /-- A declared field gave way to the discriminator. -/
  | discriminator
  /-- An element without effect. -/
  | ignoredElement
  deriving DecidableEq, Repr, Inhabited

structure Warning where
  kind : WarningKind
  message : String
  deriving DecidableEq, Repr, Inhabited

namespace WarningKind

def all : List WarningKind := [dependencyCycle, filter, hiddenField, discriminator, ignoredElement]

/-- The word for the kind in structured output. -/
def name : WarningKind → String
  | dependencyCycle => "dependency_cycle"
  | filter => "filter"
  | hiddenField => "hidden_field"
  | discriminator => "discriminator"
  | ignoredElement => "ignored_element"

/-- The word for the kind in a report. -/
def title : WarningKind → String
  | dependencyCycle => "DependencyCycle"
  | filter => "Filter"
  | hiddenField => "HiddenField"
  | discriminator => "Discriminator"
  | ignoredElement => "IgnoredElement"

end WarningKind

namespace Warning

/-- An element that was skipped; `place` says where, with a blank in front. -/
def skipped (element place : String) : Warning :=
  ⟨.ignoredElement, s!"element <{element}>{place} was skipped"⟩

end Warning

end EntitySchema
