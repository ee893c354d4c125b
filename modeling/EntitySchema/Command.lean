import EntitySchema.Compilation
import EntitySchema.Files
import EntitySchema.Files.Path
import EntitySchema.Options.File
import EntitySchema.Report

/-! The compile command: it gathers the options from an option file and from its own
arguments, reads the documents that the arguments name, compiles them and reports
on the result. The first failure ends it. -/

namespace EntitySchema

/-- What the compile command is asked for. Documents and options are named by their
paths. -/
structure Command where
  schemas : List String := []
  screens : Option String := none
  config : Option String := none
  /-- Stands in for the dialect of the option file. -/
  dialect : Option String := none
  /-- Stands in for the mapping of the option file. -/
  mapping : Option String := none
  format : ReportFormat := .compact
  deriving DecidableEq, Repr

/-- Why the command ends without a report. -/
inductive CommandFault where
  | noSchema
  | option (fault : OptionFault)
  | unreadOptions (path : String) (fault : FileFault)
  | badOptions (format : OptionFormat)
  | unread (path : String) (fault : FileFault)
  | failed (failure : Failure)
  deriving DecidableEq, Repr

namespace CommandFault

def message : CommandFault → String
  | noSchema => "Invalid argument: at least one --schema file is required"
  | option fault => s!"Invalid argument: {fault.message}"
  | unreadOptions path fault =>
    s!"Failed to load configuration: Failed to read config file {path}: {fault.message}"
  | badOptions format => s!"Failed to load configuration: {format.fault}"
  | unread path fault => s!"Failed to read {path}: {fault.message}"
  | failed failure => failure.message

/-- The code that the program ends with. -/
def exitCode : CommandFault → Nat
  | noSchema | option _ | unreadOptions .. | badOptions _ => 2
  | unread .. => 3
  | failed _ => 1

end CommandFault

namespace Command

/-- The format of an option file, by its name. -/
def optionFormat (path : String) : OptionFormat :=
  match Path.extension? path with
  | some "yaml" | some "yml" => .yaml
  | _ => .toml

/-- The options in a file. -/
def readOptions (files : Files) (path : String) : Except CommandFault Options := do
  let text ← (files path).mapError (.unreadOptions path)
  match Options.ofText? (optionFormat path) text with
  | some options => pure options
  | none => throw (.badOptions (optionFormat path))

/-- An option that an argument gives, or the one that stands without it. -/
def override (read : String → Except OptionFault α) (standing : α) :
    Option String → Except CommandFault α
  | some text => (read text).mapError .option
  | none => .ok standing

/-- The options of the option file, overridden by the arguments. -/
def options (c : Command) (files : Files) : Except CommandFault Options := do
  let options ← match c.config with
    | some path => readOptions files path
    | none => pure {}
  let dialect ← override Dialect.read options.dialect c.dialect
  let mapping ← override Mapping.read options.mapping c.mapping
  pure { options with dialect, mapping }

/-- The text of a document. -/
def readDocument (files : Files) (path : String) : Except CommandFault String :=
  (files path).mapError (.unread path)

/-- The path of a document that the screen document at a path includes. -/
def includedPath (screens file : String) : String := Path.join (Path.parent screens) file

/-- Included documents are looked for beside the screen document. -/
def library (files : Files) (screens : String) : Screens.Library := fun file =>
  let path := includedPath screens file
  (files path).mapError fun fault => .inclusion path fault.message

/-- Compiles the documents that the arguments name. -/
def compile (c : Command) (files : Files) : Except CommandFault Compiled := do
  if c.schemas = [] then throw .noSchema
  let options ← c.options files
  let schemas ← c.schemas.mapM (readDocument files)
  match c.screens with
  | none => (Compilation.compile options Screens.noLibrary schemas none).mapError .failed
  | some path =>
    let text ← readDocument files path
    (Compilation.compile options (library files path) schemas (some text)).mapError .failed

/-- The report that the command prints. -/
def report (c : Command) (files : Files) : Except CommandFault String := do
  pure (Report.render (← c.compile files) c.format)

end Command

end EntitySchema
