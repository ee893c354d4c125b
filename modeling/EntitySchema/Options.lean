import EntitySchema.Text.Casing

/-! What a compilation can be asked for: the dialect of the target database, the
way a hierarchy of entities is laid out in tables, and the entities that carry
access rights. -/

namespace EntitySchema

/-- Target database: it fixes which words are reserved and how long an
identifier may be. -/
inductive Dialect where
  | generic
  | oracle
  | mysql
  | postgresql
  | hsqldb
  deriving DecidableEq, Repr, Inhabited

/-- How a hierarchy of entities becomes tables. -/
inductive Mapping where
  /-- The root of the hierarchy has a discriminator column, and subclasses join
  on the inherited key. -/
  | subclassPerTable
  /-- Each hierarchy gets an abstract root that holds its identity. -/
  | classPerTable
  deriving DecidableEq, Repr, Inhabited

/-- An option value that names nothing known. -/
inductive OptionFault where
  | unknownDialect (text : String)
  | unknownMapping (text : String)
  deriving DecidableEq, Repr

namespace OptionFault

def message : OptionFault → String
  | unknownDialect text => s!"Unknown dialect: {text}"
  | unknownMapping text => s!"Unknown mapping strategy: {text}"

end OptionFault

namespace Dialect

def all : List Dialect := [generic, oracle, mysql, postgresql, hsqldb]

def name : Dialect → String
  | generic => "generic"
  | oracle => "oracle"
  | mysql => "mysql"
  | postgresql => "postgresql"
  | hsqldb => "hsqldb"

/-- The most characters an identifier may have. -/
def limit? : Dialect → Option Nat
  | generic => none
  | oracle => some 30
  | mysql => some 64
  | postgresql => some 63
  | hsqldb => some 128

/-- The dialect of exactly this name. -/
def ofName? (text : String) : Option Dialect := all.find? (·.name = text)

/-- Reads a dialect in any letter case; two have short names, and the empty text
is the generic one. -/
def read (text : String) : Except OptionFault Dialect :=
  match Text.lower text with
  | "" => .ok generic
  | "postgres" => .ok postgresql
  | "hsql" => .ok hsqldb
  | name => match ofName? name with
    | some dialect => .ok dialect
    | none => .error (.unknownDialect name)

end Dialect

namespace Mapping

def all : List Mapping := [subclassPerTable, classPerTable]

def name : Mapping → String
  | subclassPerTable => "subclass_per_table"
  | classPerTable => "class_per_table"

/-- The mapping of exactly this name. -/
def ofName? (text : String) : Option Mapping := all.find? (·.name = text)

/-- Reads a mapping in any letter case, with hyphens for underscores. -/
def read (text : String) : Except OptionFault Mapping :=
  let name := String.ofList ((Text.lower text).toList.map fun c => if c = '-' then '_' else c)
  match ofName? name with
  | some mapping => .ok mapping
  | none => .error (.unknownMapping name)

end Mapping

/-- The options of a compilation. -/
structure Options where
  dialect : Dialect := .generic
  mapping : Mapping := .subclassPerTable
  /-- Entities that carry access rights. -/
  authorizable : List String := []
  deriving DecidableEq, Repr, Inhabited

end EntitySchema
