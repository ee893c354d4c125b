import EntitySchema.Failure.Reading
import EntitySchema.Hierarchy
import EntitySchema.Warning

/-! What the screens of a model have to be: no name has white space in it, and the
fields that forms hide are fields of their entities. A form that hides a field
which users have to fill in gets a warning. -/

namespace EntitySchema.Screens

/-- Users have to fill in the field. -/
def isRequired (f : Field) : Bool := !f.nillable && !f.auto && f.defaultValue = ""

/-- The warnings for one field that a form hides. -/
def checkHidden (m : Model) (screen : String) (form : Form) (name : String) :
    Except ScreenFault (List Warning) :=
  match m.visibleFieldIgnoringCase? form.entity name with
  | none => .error (.hiddenUnknownField screen name form.entity)
  | some f =>
    if isRequired f then
      .ok [⟨.hiddenField, s!"form '{screen}' hides '{form.entity}.{f.name}', " ++
        "which is required and has no default; records cannot be added"⟩]
    else .ok []

/-- The warnings for one screen. -/
def checkScreen (m : Model) (s : Screen) : Except ScreenFault (List Warning) := do
  if Text.hasSpace s.name then throw (.spacedName s.name)
  match s.form? with
  | some form =>
    if form.readonly then pure []
    else do
      let warnings ← form.hideFields.mapM (checkHidden m s.name form)
      pure warnings.flatten
  | none => pure []

/-- Checks all screens below the root. -/
def check (m : Model) : Except ScreenFault (List Warning) := do
  let warnings ← m.screens.inner.mapM (checkScreen m)
  pure warnings.flatten

end EntitySchema.Screens
