import EntitySchema.Hierarchy
import EntitySchema.Warning

/-! Dependencies. A record needs the records that it refers to, which may belong to
any entity below the one referred to, and its parts in the entities above its
own. `order` puts every entity after those that it depends on, as far as the
dependencies do not run in circles. -/

namespace EntitySchema.Dependency

/-- The entity is there and has records. -/
def isConcrete (m : Model) (name : String) : Bool :=
  match m.entity? name with
  | some e => !e.isAbstract
  | none => false

/-- What a field may refer to: its target and the entities below it. -/
def referred (m : Model) (f : Field) : List String :=
  match f.targetEntity? with
  | some target => target :: (m.descendants target).map (·.name)
  | none => []

/-- The concrete entities that one depends on, except itself. -/
def dependencies (m : Model) (name : String) : List String :=
  (((m.allFields name).flatMap (referred m) ++ (m.ancestors name).map (·.name)).filter
    fun other => isConcrete m other && other ≠ name).eraseDups

/-! ### Placing entities -/

/-- Names that depend on other names. -/
abbrev Table := List (String × List String)

/-- The names that a name depends on. -/
def Table.of (t : Table) (name : String) : List String := (t.lookup name).getD []

/-- Everything that a name depends on is placed. -/
def isReady (t : Table) (placed : List String) (name : String) : Bool :=
  (t.of name).all placed.contains

/-- Places the first name that is ready, again and again; the result holds the
names that are placed and those that never get ready. -/
def place (t : Table) (placed remaining : List String) : List String × List String :=
  match _h : remaining.find? (isReady t placed) with
  | none => (placed, remaining)
  | some name => place t (placed ++ [name]) (remaining.erase name)
termination_by remaining.length
decreasing_by
  have hmem := List.mem_of_find?_eq_some _h
  have := List.length_erase_of_mem hmem
  have := List.length_pos_of_mem hmem
  omega

/-! ### Circles -/

/-- The nodes that can be reached from a name in one or more steps. -/
def reachable (t : Table) (nodes : List String) (name : String) : List String :=
  Closure.reach nodes t.of .depthFirst [] (t.of name)

/-- The nodes that lead to a name and to which it leads, and the name itself. -/
def circleOf (t : Table) (nodes : List String) (name : String) : List String :=
  nodes.filter fun other => other = name ||
    (reachable t nodes name).contains other && (reachable t nodes other).contains name

/-- The circles of more than one node, in the order of their first members. -/
def circles (t : Table) (nodes : List String) : List (List String) :=
  nodes.filterMap fun name =>
    let circle := circleOf t nodes name
    if 1 < circle.length && circle.head? = some name then some circle else none

/-! ### Order -/

/-- The names of all entities, and a warning when not all could be placed. -/
structure Order where
  names : List String
  warning : Option Warning := none

/-- A name with what it waits for. -/
def unmet (t : Table) (placed : List String) (name : String) : String :=
  let missing := ", ".intercalate ((t.of name).filter fun other => !placed.contains other)
  s!"{name} -> [{missing}]"

/-- The warning for names that cannot be placed. -/
def cycleWarning (t : Table) (placed remaining : List String) : Warning :=
  let waiting := "; ".intercalate (remaining.map (unmet t placed))
  let groups := " ".intercalate ((circles t remaining.eraseDups).map fun circle =>
    "[" ++ ", ".intercalate circle ++ "]")
  ⟨.dependencyCycle,
    s!"dependency cycle, appended in model order: {waiting}; cycles: {groups}"⟩

/-- What every entity depends on. -/
def table (m : Model) : Table := m.entityNames.map fun name => (name, dependencies m name)

/-- The entities, each after what it depends on; those that wait for each other
come last, in model order. -/
def order (m : Model) : Order :=
  let t := table m
  match place t [] m.entityNames with
  | (placed, []) => { names := placed }
  | (placed, remaining) =>
    { names := placed ++ remaining, warning := some (cycleWarning t placed remaining) }

end EntitySchema.Dependency
