import EntitySchema.Screens.Node
import EntitySchema.Xml.Document

/-! Screen documents. The screens of a document join those that the model has. A
document may include others, whose screens stand in the place of the include;
includes that nest too deeply are taken for a circle. -/

namespace EntitySchema.Screens

open Xml (Element)

/-- Where included documents come from: a text for a name, or a failure. -/
abbrev Library := String → Except Failure String

/-- A place without documents. -/
def noLibrary : Library := fun file => .error (.inclusion file "includes are not supported here")

/-- How deep includes may nest. -/
def maxNesting : Nat := 16

/-- Screens that were read, with the warnings so far. -/
structure Gathered where
  screens : List Screen := []
  warnings : List Warning := []

/-- Work that gathers screens, and keeps what it gathered when it fails. -/
abbrev Gathering (α : Type) := ExceptT Failure (StateM Gathered) α

namespace Gathering

/-- Work on a single screen. -/
def noting (work : Noting α) : Gathering α := ExceptT.mk fun gathered =>
  let (outcome, warnings) := work.run gathered.warnings
  (outcome, { gathered with warnings })

/-- The screens that the work gathers, which are not gathered here. -/
def inside (work : Gathering Unit) : Gathering (List Screen) := ExceptT.mk fun gathered =>
  let (outcome, inner) := work.run { gathered with screens := [] }
  (outcome.map fun _ => inner.screens, { gathered with warnings := inner.warnings })

def add (s : Screen) : Gathering Unit :=
  modify fun gathered => { gathered with screens := gathered.screens ++ [s] }

end Gathering

/-- What an include element stands for, inside a screen of the given name. -/
abbrev Inclusion := String → Element → Gathering Unit

mutual

/-- Gathers the screen that an element declares, with the screens inside it. -/
def readElement (m : Model) (inclusion : Inclusion) (parent : String) : Element → Gathering Unit
  | ⟨name, attributes, children, text⟩ => do
    let x : Element := ⟨name, attributes, children, text⟩
    match name with
    | "include" => inclusion parent x
    | "description" =>
      Gathering.noting <| note
        ⟨.ignoredElement, "the <description> element is not supported in a ui-schema"⟩
    | "menu" | "form" | "tree" | "plugin" =>
      let screen ← Gathering.noting (readScreen m parent x)
      let children ← Gathering.inside (readElements m inclusion screen.name children)
      Gathering.add { screen with children }
    | other => Gathering.noting (note (.skipped other s!" under '{parent}'"))

def readElements (m : Model) (inclusion : Inclusion) (parent : String) :
    List Element → Gathering Unit
  | [] => pure ()
  | x :: rest => do
    readElement m inclusion parent x
    readElements m inclusion parent rest

end

/-- The file that an include element names. -/
def includedFile (x : Element) : Except ScreenFault String :=
  match x.filled? "file" with
  | some file => .ok file
  | none => .error .unnamedInclude

/-- Gathers the screens of an included document, with `depth` more levels of
includes allowed. -/
def includeScreens (m : Model) (library : Library) : Nat → Inclusion
  | 0, _, x => do
    let file ← includedFile x
    throw (.inclusion file "includes are nested too deeply")
  | depth + 1, parent, x => do
    let file ← includedFile x
    let text ← library file
    let root ← Xml.parse text
    readElements m (includeScreens m library depth) parent root.children

/-- The elements directly inside a document are those that may stand there. -/
def checkRoot (root : Element) : Except ScreenFault Unit :=
  match root.children.find? fun x => !screenRootElements.contains x.name with
  | some x => .error (.unknownRootElement x.name)
  | none => .ok ()

/-- The name that a document gives the model, if it is legal. -/
def checkName (root : Element) (dialect : Dialect) : Except Identifier.Fault Unit :=
  match root.trimmed? "name" with
  | some name => Identifier.check "model" name dialect
  | none => .ok ()

/-- The name and the label that the root element gives the model and its screens. -/
def entitle (root : Element) (m : Model) : Model :=
  let name := (root.trimmed? "name").getD m.name
  let label := (root.filled? "label").getD m.label
  { m with name, label, screens := { m.screens with name, label } }

/-- Gathers screens into those of the model. -/
def gather (work : Model → Gathering Unit) : Reading Unit := ExceptT.mk fun draft =>
  let m := draft.model
  let (outcome, gathered) :=
    (work m).run { screens := m.screens.children, warnings := draft.warnings }
  (outcome, {
    model := { m with screens := { m.screens with children := gathered.screens } }
    warnings := gathered.warnings })

/-- Reads a document, given its root element. -/
def readRoot (dialect : Dialect) (library : Library) (root : Element) : Reading Unit := do
  checkRoot root
  checkName root dialect
  Reading.change (entitle root)
  gather fun m => readElements m (includeScreens m library maxNesting) m.name root.children

/-- Reads a screen document into the draft. -/
def read (dialect : Dialect) (library : Library) (text : String) : Reading Unit := do
  readRoot dialect library (← Xml.parse text)

end EntitySchema.Screens
