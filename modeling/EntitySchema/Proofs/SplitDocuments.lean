import EntitySchema.Compilation
import Mathlib

/-! Schemas in several documents. Reading a document takes in the declarations of its root one
after the other, and each of them sees only what the draft has become by then; where one
document ends and the next one begins makes no difference, unless the next one has a name or a
label of its own. -/

namespace EntitySchema

open Xml (Element)

namespace Schema

variable {r r₁ r₂ : Element}

/-- A root without a name and a label leaves the model untitled. -/
theorem entitle_eq (hname : r.filled? "name" = none) (hlabel : r.filled? "label" = none)
    (m : Model) : entitle r m = m := by
  have htrimmed : r.trimmed? "name" = none := by rw [Element.trimmed?, hname]; rfl
  unfold entitle
  rw [htrimmed, hlabel]

/-- Reading two roots in turn is reading one with the children of both. -/
theorem readRoot_append (h : ∀ m, entitle r₂ m = m) (text : String) :
    (do readRoot r₁; readRoot r₂) =
      readRoot ⟨r₁.name, r₁.attributes, r₁.children ++ r₂.children, text⟩ := by
  have hentitle : Reading.change (entitle r₂) = pure () := by
    rw [funext h]
    rfl
  calc (do readRoot r₁; readRoot r₂)
      = (do
          Reading.change (entitle r₁)
          r₁.children.forM addDeclaration
          Reading.change (entitle r₂)
          r₂.children.forM addDeclaration) := by simp only [readRoot, bind_assoc]
    _ = (do
          Reading.change (entitle r₁)
          (r₁.children ++ r₂.children).forM addDeclaration) := by
        rw [hentitle]
        simp only [List.forM_eq_forM, List.forM_append, pure_bind]
    _ = readRoot ⟨r₁.name, r₁.attributes, r₁.children ++ r₂.children, text⟩ := rfl

/-- What was read before and what is read afterwards is the same. -/
theorem read_eq {text : String} (h : Xml.parse text = .ok r) : read text = readRoot r := by
  unfold read
  rw [h]
  rfl

end Schema

namespace Compilation

/-- Documents that read like one may stand in its place among others. -/
theorem readSchemas_replace {text₁ text₂ text : String}
    (h : (do Schema.read text₁; Schema.read text₂) = Schema.read text)
    (before after : List String) :
    readSchemas (before ++ text₁ :: text₂ :: after) = readSchemas (before ++ text :: after) := by
  simp only [readSchemas, List.forM_eq_forM, List.forM_append, List.forM_cons, ← h, bind_assoc]

/-- Compilation starts from what all schema documents declare. -/
theorem compile_congr {options : Options} {library : Screens.Library} {schemas schemas' : List String}
    (h : readSchemas schemas = readSchemas schemas') (screens : Option String) :
    compile options library schemas screens = compile options library schemas' screens := by
  unfold compile completeSchemas
  rw [h]

end Compilation

open Compilation (compile readSchemas)

/-- Splitting a schema over two documents changes nothing, if the second one has neither a name
nor a label. Whatever was read before, and whether reading succeeds or fails, the two leave
the outcome, the model and the warnings that one document leaves which has the name and the
attributes of the first and the children of both; so the schemas that they belong to compile
to the same. -/
theorem read_split {text₁ text₂ text inside : String} {r₁ r₂ : Element}
    (h₁ : Xml.parse text₁ = .ok r₁) (h₂ : Xml.parse text₂ = .ok r₂)
    (hname : r₂.filled? "name" = none) (hlabel : r₂.filled? "label" = none)
    (h : Xml.parse text = .ok ⟨r₁.name, r₁.attributes, r₁.children ++ r₂.children, inside⟩) :
    (∀ d : Draft, (readSchemas [text₁, text₂]).run d = (Schema.read text).run d) ∧
    ∀ options library before after screens,
      compile options library (before ++ text₁ :: text₂ :: after) screens =
        compile options library (before ++ text :: after) screens := by
  have hread : (do Schema.read text₁; Schema.read text₂) = Schema.read text := by
    rw [Schema.read_eq h₁, Schema.read_eq h₂, Schema.read_eq h]
    exact Schema.readRoot_append (Schema.entitle_eq hname hlabel) inside
  refine ⟨fun d => ?_, fun options library before after screens => ?_⟩
  · have hpair : readSchemas [text₁, text₂] = Schema.read text := by
      simpa [readSchemas] using hread
    rw [hpair]
  · exact Compilation.compile_congr (Compilation.readSchemas_replace hread before after) screens

/-- A document with one entity. -/
def crateText : String :=
  "<lab name='store'><entity name='Crate'><field name='id' type='autoid'/></entity></lab>"

def crateRoot : Element :=
  ⟨"lab", [("name", "store")], [⟨"entity", [("name", "Crate")],
    [⟨"field", [("name", "id"), ("type", "autoid")], [], ""⟩], ""⟩], ""⟩

/-- A document with a blank name, in which the entity is declared again. -/
def shelfText : String := "<more name=' '><shelf/><entity name='Crate'/></more>"

def shelfRoot : Element :=
  ⟨"more", [("name", " ")], [⟨"shelf", [], [], ""⟩, ⟨"entity", [("name", "Crate")], [], ""⟩], ""⟩

/-- A document with the declarations of both. -/
def storeText : String :=
  "<lab name='store'><entity name='Crate'><field name='id' type='autoid'/></entity>" ++
  "<shelf/><entity name='Crate'/></lab>"

/-- Both ways end with the same failure, and leave the first entity and a warning behind. -/
theorem store_split : Xml.parse crateText = .ok crateRoot ∧ Xml.parse shelfText = .ok shelfRoot ∧
    shelfRoot.filled? "name" = none ∧ shelfRoot.filled? "label" = none ∧
    Xml.parse storeText = .ok ⟨crateRoot.name, crateRoot.attributes,
      crateRoot.children ++ shelfRoot.children, ""⟩ ∧
    (∀ d : Draft, (readSchemas [crateText, shelfText]).run d = (Schema.read storeText).run d) ∧
    ((readSchemas [crateText, shelfText]).run ⟨.empty, []⟩).1.toBool = false ∧
    ((readSchemas [crateText, shelfText]).run ⟨.empty, []⟩).2.model.entityNames = ["Crate"] ∧
    ((readSchemas [crateText, shelfText]).run ⟨.empty, []⟩).2.warnings =
      [.skipped "shelf" " is not supported and"] := by
  have hcrate : Xml.parse crateText = .ok crateRoot := by cbv
  have hshelf : Xml.parse shelfText = .ok shelfRoot := by cbv
  have hstore : Xml.parse storeText = .ok ⟨crateRoot.name, crateRoot.attributes,
    crateRoot.children ++ shelfRoot.children, ""⟩ := by cbv
  have hname : shelfRoot.filled? "name" = none := by decide +kernel
  have hlabel : shelfRoot.filled? "label" = none := by decide +kernel
  refine ⟨hcrate, hshelf, hname, hlabel, hstore,
    (read_split hcrate hshelf hname hlabel hstore).1, ?_⟩
  decide +kernel

end EntitySchema
