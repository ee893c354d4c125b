import EntitySchema.Hierarchy.Discriminator

/-! Identity roots: with a table for each class, every hierarchy gets an abstract
entity above its root that owns the identity of all its records. -/

namespace EntitySchema.Hierarchy

/-- The name of the identity root above a root. -/
def identityName (root : String) : String := s!"_{root}Interface"

/-- An identity root without fields and keys. -/
def plainIdentity (root : Entity) : Entity :=
  { Entity.named (identityName root.name) with
    isAbstract := true
    label := root.name
    scope := root.scope
    module := root.module
    description := some s!"Identity map table for {root.name} and all its subclasses" }

/-- An identity root holds the primary key of the root and a discriminator that
can be written. -/
def identityOf (m : Model) (root : Entity) : Except DuplicateFault Entity := do
  let identity ← (m.primaryKeyFields root.name).foldlM Entity.addField (plainIdentity root)
  let identity ← match m.primaryKey? root.name with
    | some key => identity.addKey { fields := key.fields, subclass := key.subclass }
    | none => pure identity
  identity.insertField 0 { discriminator (members m root.name) with readonly := false }

/-- Puts an identity root above a root. -/
def addIdentity (name : String) (m : Model) : Except Failure Model := do
  match m.entity? name with
  | none => pure m
  | some root =>
    let m ← m.addEntity (← identityOf m root)
    pure (m.changeEntity name fun e => { e with parents := [identityName name] })

/-- Puts identity roots above all roots. -/
def addIdentities : Pass Unit := do
  let m ← get
  (m.entityNames.filter m.isRoot).forM fun name => Pass.step (addIdentity name)

end EntitySchema.Hierarchy
