import EntitySchema.Command
import EntitySchema.Xml.Document

/-! The files that a command reads: those that its arguments name, and those that
screen documents include. They can be told before the command runs, one level of
includes after the other. -/

namespace EntitySchema

namespace Xml

mutual

/-- The files that include elements name, at any depth inside an element. -/
def includedFiles : Element → List String
  | ⟨name, attributes, children, text⟩ =>
    let file := if name = "include" then
      (Element.mk name attributes children text).filled? "file" else none
    file.toList ++ includedFilesOf children

def includedFilesOf : List Element → List String
  | [] => []
  | e :: rest => includedFiles e ++ includedFilesOf rest

end

end Xml

namespace Command

/-- The paths that the arguments name. -/
def namedPaths (c : Command) : List String := c.config.toList ++ c.schemas ++ c.screens.toList

/-- The paths of the documents that a screen document includes. -/
def includedPaths (c : Command) (text : String) : List String :=
  match c.screens, Xml.parse text with
  | some screens, .ok root => (Xml.includedFiles root).map (includedPath screens)
  | _, _ => []

/-- Contents of files that were read, by path. -/
abbrev Loaded := List (String × Except FileFault String)

/-- The files that were read; any other is missing. -/
def Loaded.files (loaded : Loaded) : Files := fun path =>
  (loaded.lookup path).getD (.error .missing)

/-- The paths that the documents lead to and that were not read yet. -/
def nextPaths (c : Command) (loaded : Loaded) (fresh : List String) : List String :=
  let texts := fresh.filterMap fun path => (loaded.files path).toOption
  ((texts.flatMap c.includedPaths).filter fun path => !(loaded.lookup path).isSome).eraseDups

end Command

end EntitySchema
