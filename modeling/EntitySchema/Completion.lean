import EntitySchema.FieldCase
import EntitySchema.Hierarchy.Decorator
import EntitySchema.Hierarchy.IdentityRoot
import EntitySchema.Hierarchy.Key
import EntitySchema.Hierarchy.KeyField
import EntitySchema.Identifier.Check
import EntitySchema.Keys
import EntitySchema.Link.Entity
import EntitySchema.Link.Relocation
import EntitySchema.Reference
import EntitySchema.Views

/-! Completing a model. The passes run one after the other: names, keys along the
hierarchy, references, link entities, and what the mapping to tables needs. Each
builds on what those before it made sure of. -/

namespace EntitySchema

namespace Pass

/-- Checks the names and completes those of links. -/
def completeNames (dialect : Dialect) : Pass Unit := do
  check fun m => (Identifier.checkModel dialect m).mapError .identifier
  Link.assignNames dialect

/-- Completes keys and labels, with the warnings of the discriminators. -/
def completeKeys (options : Options) : Pass (List Warning) := do
  Hierarchy.propagateKeys
  let warnings ←
    if options.mapping = .subclassPerTable then Hierarchy.addDiscriminators else pure []
  check fun m => (Hierarchy.checkOverrides m).mapError .hierarchy
  check fun m => (Keys.check m).mapError .key
  step fun m => (Keys.assignLabels m).mapError .key
  Link.relocate options.dialect
  pure warnings

/-- Resolves references, before and after fields are put in lower case. -/
def completeReferences : Pass Unit := do
  Reference.resolveAll
  FieldCase.correct
  Reference.resolveAll
  step fun m => (Views.completeAll m).mapError .reference

/-- Makes link entities, and resolves the references that they hold. -/
def completeLinks (dialect : Dialect) : Pass Unit := do
  let made ← Link.synthesize dialect
  Reference.resolveEntities made

/-- Hands labels, decorators and keys on, and adds identity roots if the mapping
has them. -/
def completeTables (options : Options) : Pass Unit := do
  change Reference.propagateLabels
  change Hierarchy.propagateDecorators
  if options.mapping = .classPerTable then Hierarchy.addIdentities
  Hierarchy.copyKeyFields
  check fun m => (Identifier.checkSizes options.dialect m).mapError .identifier

/-- All passes; the result holds the warnings. -/
def complete (options : Options) : Pass (List Warning) := do
  completeNames options.dialect
  let warnings ← completeKeys options
  completeReferences
  completeLinks options.dialect
  completeTables options
  pure warnings

end Pass

end EntitySchema
