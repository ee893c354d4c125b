import EntitySchema.Options.Toml
import EntitySchema.Options.Yaml

/-! Option files. -/

namespace EntitySchema

/-- The format of an option file. -/
inductive OptionFormat where
  | toml
  | yaml
  deriving DecidableEq, Repr

namespace OptionFormat

def title : OptionFormat → String
  | toml => "TOML"
  | yaml => "YAML"

/-- What is said of a file that does not hold options. -/
def fault (format : OptionFormat) : String :=
  s!"Failed to parse compiler options as {format.title}"

end OptionFormat

/-- The options in a file of the format. -/
def Options.ofText? (format : OptionFormat) (text : String) : Option Options := do
  let settings ← match format with
    | .toml => Toml.read? text
    | .yaml => Yaml.read? text
  ofSettings? settings

end EntitySchema
