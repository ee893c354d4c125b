import EntitySchema.Hierarchy

/-! Decorators pass down the hierarchy: an entity without one takes that of its
first decorated ancestor, else that of its first decorated interface. -/

namespace EntitySchema.Hierarchy

/-- The decorator that an entity would inherit. -/
def inheritedDecorator? (m : Model) (name : String) : Option String :=
  (m.ancestors name ++ m.interfaces name).findSome? (·.decorator)

/-- The decorators that entities inherit, each with the name of its entity. -/
def inheritedDecorators (m : Model) : List (String × String) :=
  m.entities.filterMap fun e =>
    if e.decorator.isSome then none
    else (inheritedDecorator? m e.name).map fun decorator => (e.name, decorator)

/-- Gives entities the decorators that they inherit. -/
def propagateDecorators (m : Model) : Model :=
  (inheritedDecorators m).foldl (fun m' (name, decorator) =>
    m'.changeEntity name fun e => { e with decorator := some decorator }) m

end EntitySchema.Hierarchy
