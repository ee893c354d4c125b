import EntitySchema.Command

/-! The words of a command line, read into a command. Every option has a long name, a
letter and a value; only the option for schema documents may be given more than once. -/

namespace EntitySchema

/-- Why the words of a command line are refused. -/
inductive UsageFault where
  | noCommand
  | unknownCommand (word : String)
  | unknownOption (word : String)
  | noValue (word : String)
  | repeated (word : String)
  | unknownFormat (text : String)
  deriving DecidableEq, Repr

namespace UsageFault

def message : UsageFault → String
  | noCommand => "a command is required"
  | unknownCommand word => s!"unknown command '{word}'"
  | unknownOption word => s!"unexpected argument '{word}'"
  | noValue word => s!"a value is required for '{word}'"
  | repeated word => s!"the argument '{word}' cannot be used more than once"
  | unknownFormat text => s!"invalid value '{text}' for '--format'"

end UsageFault

namespace Command

/-- How the program is called. -/
def usage : String := "usage: compile --schema FILE... [--ui FILE] [--config FILE] " ++
  "[--dialect NAME] [--mapping NAME] [--format compact|pretty|json]"

/-- The word for an option with its value, apart: `--name=value` is one word. -/
def splitWord (word : String) (rest : List String) :
    Except UsageFault (String × String × List String) :=
  match Text.splitAtFirst '=' word, rest with
  | some (name, value), rest => .ok (name, value, rest)
  | none, value :: rest => .ok (word, value, rest)
  | none, [] => .error (.noValue word)

/-- The value for an option that does not have one yet. -/
def once (word value : String) : Option String → Except UsageFault (Option String)
  | none => .ok (some value)
  | some _ => .error (.repeated word)

/-- The command with one more option. The format is kept apart, as text. -/
def setOption (c : Command) (format : Option String) (word value : String) :
    Except UsageFault (Command × Option String) :=
  match word with
  | "--schema" | "-s" => .ok ({ c with schemas := c.schemas ++ [value] }, format)
  | "--ui" | "-u" => do pure ({ c with screens := ← once word value c.screens }, format)
  | "--config" | "-c" => do pure ({ c with config := ← once word value c.config }, format)
  | "--dialect" | "-d" => do pure ({ c with dialect := ← once word value c.dialect }, format)
  | "--mapping" | "-m" => do pure ({ c with mapping := ← once word value c.mapping }, format)
  | "--format" | "-f" => do pure (c, ← once word value format)
  | _ => .error (.unknownOption word)

/-- Reads options into a command. Every word but the last takes at most two off the
list, so `fuel` is its length. -/
def readOptionWords : Nat → Command → Option String → List String →
    Except UsageFault (Command × Option String)
  | 0, c, format, _ => .ok (c, format)
  | _, c, format, [] => .ok (c, format)
  | fuel + 1, c, format, word :: rest => do
    let (name, value, rest) ← splitWord word rest
    let (c, format) ← setOption c format name value
    readOptionWords fuel c format rest

/-- The report format of a name; without one, the compact format. -/
def readFormat : Option String → Except UsageFault ReportFormat
  | none => .ok .compact
  | some text =>
    match ReportFormat.ofName? text with
    | some format => .ok format
    | none => .error (.unknownFormat text)

/-- The command that the words of a command line ask for. -/
def ofWords : List String → Except UsageFault Command
  | [] => .error .noCommand
  | "compile" :: words => do
    let (c, format) ← readOptionWords words.length {} none words
    pure { c with format := ← readFormat format }
  | word :: _ => .error (.unknownCommand word)

end Command

end EntitySchema
