/-! Screens: the tree of menus, forms, trees and plugins through which users see
a model. -/

namespace EntitySchema

/-- How a form opens. -/
inductive FormView where
  | list
  | edit
  deriving DecidableEq, Repr, Inhabited

inductive SortOrder where
  | asc
  | desc
  deriving DecidableEq, Repr, Inhabited

/-- A condition on the records that a form shows. -/
structure FormFilter where
  field : String
  kind : String
  value : Option String
  deriving DecidableEq, Repr, Inhabited

/-- A form, which edits the records of one entity. -/
structure Form where
  entity : String
  view : FormView
  /-- How many records a page shows. -/
  limit : Nat
  readonly : Bool
  header : Option String
  description : Option String
  commands : List String
  sortBy : Option String
  sortOrder : Option SortOrder
  filter : Option FormFilter
  /-- Fields that are not shown. -/
  hideFields : List String
  /-- Fields of the short listing, each as the entity's name, an underscore and
  the field's name. -/
  compactView : List String
  deriving DecidableEq, Repr, Inhabited

/-- How many records a page shows when the form does not say. -/
def Form.defaultLimit : Nat := 10

/-- A browser over an entity whose records refer to their parents. -/
structure Tree where
  entity : String
  parentField : String
  idField : String
  labelField : String
  readonly : Bool
  deriving DecidableEq, Repr, Inhabited

/-- A screen that is made elsewhere. -/
structure Plugin where
  kind : String
  flavor : Option String
  readonly : Bool
  deriving DecidableEq, Repr, Inhabited

inductive ScreenKind where
  | root
  | menu (position : Option String)
  | form (form : Form)
  | tree (tree : Tree)
  | plugin (plugin : Plugin)
  deriving DecidableEq, Repr, Inhabited

/-- A screen and the screens inside it. -/
structure Screen where
  name : String
  label : String
  /-- The scope of the entity shown, or the name of the model. -/
  scope : String
  /-- The group that may read and write. -/
  group : Option String
  /-- The group that may read. -/
  groupRead : Option String
  kind : ScreenKind
  children : List Screen
  deriving Repr, Inhabited

namespace Screen

/-- The screen at the root of a model. -/
def rootOf (name : String) : Screen := ⟨name, name, "", none, none, .root, []⟩

mutual

/-- The screen and all screens inside it, each before its children. -/
def walk : Screen → List Screen
  | ⟨name, label, scope, group, groupRead, kind, children⟩ =>
    ⟨name, label, scope, group, groupRead, kind, children⟩ :: walkAll children

def walkAll : List Screen → List Screen
  | [] => []
  | s :: rest => walk s ++ walkAll rest

end

/-- The screens below this one, each before its children. -/
def inner (s : Screen) : List Screen := walkAll s.children

def form? (s : Screen) : Option Form :=
  match s.kind with
  | .form form => some form
  | _ => none

/-- All forms, in the order of `walk`. -/
def forms (s : Screen) : List Form := s.walk.filterMap form?

/-- The first screen of this name. -/
def find? (s : Screen) (name : String) : Option Screen := s.walk.find? (·.name = name)

end Screen

end EntitySchema
