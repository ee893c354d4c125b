/-! JSON values. Numbers are natural numbers, all that the values of this library
hold; an object keeps its members in the order in which they are written. -/

namespace EntitySchema

inductive Json where
  | null
  | bool (b : Bool)
  | num (n : Nat)
  | str (s : String)
  | arr (items : List Json)
  | obj (members : List (String × Json))
  deriving Repr, Inhabited

namespace Json

/-- The text, or null. -/
def ofText? : Option String → Json
  | some s => str s
  | none => null

def ofTexts (texts : List String) : Json := arr (texts.map str)

/-- The first member of this name, in an object. -/
def member? (name : String) : Json → Option Json
  | obj members => members.lookup name
  | _ => none

/-- The first member of this name, unless it is null. -/
def present? (name : String) (j : Json) : Option Json :=
  match j.member? name with
  | some null | none => none
  | some value => some value

def text? : Json → Option String
  | str s => some s
  | _ => none

def number? : Json → Option Nat
  | num n => some n
  | _ => none

def bool? : Json → Option Bool
  | bool b => some b
  | _ => none

def items? : Json → Option (List Json)
  | arr items => some items
  | _ => none

/-- A list of texts. -/
def texts? (j : Json) : Option (List String) := do (← j.items?).mapM text?

end Json

end EntitySchema
