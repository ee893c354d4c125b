import EntitySchema.Text.Blank
import EntitySchema.Text.Casing

/-! The names of field types in schema documents. Some types have a second name,
and `autoid` declares an integer that numbers the records of its entity. -/

namespace EntitySchema

inductive TypeName where
  | string
  | int
  | long
  | decimal
  | bool
  | date
  | dateTime
  | text
  | file
  | hyperlink
  | email
  | enum
  | xref
  | mref
  deriving DecidableEq, Repr, Inhabited

namespace TypeName

/-- The name that messages and models use. -/
def canonical : TypeName → String
  | string => "string"
  | int => "int"
  | long => "long"
  | decimal => "decimal"
  | bool => "bool"
  | date => "date"
  | dateTime => "datetime"
  | text => "text"
  | file => "file"
  | hyperlink => "hyperlink"
  | email => "email"
  | enum => "enum"
  | xref => "xref"
  | mref => "mref"

def all : List TypeName :=
  [string, int, long, decimal, bool, date, dateTime, text, file, hyperlink, email, enum, xref, mref]

/-- Second names. -/
def aliases : List (String × TypeName) :=
  [("varchar", string), ("number", int), ("boolean", bool), ("xref_single", xref),
    ("xref_multiple", mref)]

/-- Every name but `autoid`, with the type it stands for. -/
def registry : List (String × TypeName) := all.map (fun t => (t.canonical, t)) ++ aliases

/-- All names that a document may use, as messages list them. -/
def known : List String := registry.map (·.1) ++ ["autoid"]

end TypeName

/-- A type as a document declares it. -/
structure DeclaredType where
  name : TypeName
  /-- The field numbers the records: it is filled in by the system, and unique. -/
  identity : Bool
  deriving DecidableEq, Repr

/-- The type that a name stands for, in any letter case. -/
def DeclaredType.ofName? (text : String) : Option DeclaredType :=
  let name := Text.lower (Text.trim text)
  if name = "autoid" then some ⟨.int, true⟩
  else (TypeName.registry.lookup name).map fun t => ⟨t, false⟩

end EntitySchema
