import EntitySchema.Proofs.Documents
import EntitySchema.Proofs.LowerText
import EntitySchema.Proofs.MadeEntities

/-! Names of a compiled model. They are checked before any other pass, and only their
lengths are checked again in the end; in between, fields are put in lower case, and
entities and columns are called what links say. All other names stay legal. -/

namespace EntitySchema

open Model (Evolves)
open Entity (isChange_sameOutline isChange_sameStanding)
open Hierarchy (identityName)

variable {m m' : Model} {dialect : Dialect} {options : Options} {name : String}

namespace Identifier

/-! ### Legal names -/

/-- The name is one that the check of names accepts. -/
def Legal (dialect : Dialect) (name : String) : Prop :=
  Text.hasSpace name = false ∧ isReserved name dialect = false

instance : Decidable (Legal dialect name) := inferInstanceAs (Decidable (_ ∧ _))

theorem check_ok_iff {role : String} : check role name dialect = .ok () ↔ Legal dialect name := by
  unfold check Legal
  split <;> [skip; split] <;> simp_all

/-- The name is that of a legal one in lower case. -/
def Lowered (dialect : Dialect) (name : String) : Prop :=
  ∃ declared, Legal dialect declared ∧ name = Text.lower declared

/-- The name is that of a legal one in lower case, and its upper case is another. -/
def Recased (dialect : Dialect) (name : String) : Prop :=
  ∃ declared, Legal dialect declared ∧ name = Text.lower declared ∧
    Text.upper name ≠ Text.upper declared

/-- Lower case brings no white space, and no reserved word that was none in upper case. -/
theorem Lowered.legal (h : Lowered dialect name) :
    Text.hasSpace name = false ∧ (Legal dialect name ∨ Recased dialect name) := by
  obtain ⟨declared, ⟨hspace, hreserved⟩, rfl⟩ := h
  have hspace' := Text.hasSpace_lower hspace
  refine ⟨hspace', ?_⟩
  by_cases hupper : Text.upper (Text.lower declared) = Text.upper declared
  · refine .inl ⟨hspace', ?_⟩
    unfold isReserved at hreserved ⊢
    rwa [hupper]
  · exact .inr ⟨declared, ⟨hspace, hreserved⟩, rfl, hupper⟩

/-- All names of the entities and their fields are legal. -/
theorem checkModel_ok (h : checkModel dialect m = .ok ()) :
    m.All (fun e => Legal dialect e.name) ∧ m.AllFields fun f => Legal dialect f.name := by
  obtain ⟨_, _, h⟩ := Except.bind_ok h
  obtain ⟨_, _, h⟩ := Except.bind_ok h
  have hentity : ∀ e ∈ m.entities, Legal dialect e.name ∧
      ∀ f ∈ e.fields, Legal dialect f.name := by
    intro e he
    obtain ⟨_, hname, hfields⟩ := Except.bind_ok (Except.forM_ok h e he)
    refine ⟨check_ok_iff.mp hname, fun f hf => ?_⟩
    obtain ⟨_, hfield, -⟩ := Except.bind_ok (Except.forM_ok hfields f hf)
    exact check_ok_iff.mp hfield
  exact ⟨fun e he => (hentity e he).1, fun e he => (hentity e he).2⟩

/-- The name is no longer than the dialect allows. -/
def Fits (dialect : Dialect) (name : String) : Prop :=
  ∀ limit, dialect.limit? = some limit → name.length ≤ limit

theorem checkSizes_ok (h : checkSizes dialect m = .ok ()) :
    m.All fun e => Fits dialect e.name ∧ ∀ f ∈ e.fields, Fits dialect f.name := by
  intro e he
  unfold checkSizes at h
  split at h
  · next limit hlimit =>
    have hfits : ∀ {name : String}, ¬limit < name.length → Fits dialect name := by
      intro name hlength limit' hlimit'
      rw [hlimit] at hlimit'
      cases hlimit'
      exact Nat.not_lt.mp hlength
    obtain ⟨hname, hfields⟩ := Except.guard_ok (Except.forM_ok h e he)
    refine ⟨hfits hname, fun f hf => ?_⟩
    have hfield := Except.forM_ok hfields f hf
    split at hfield
    · cases hfield
    · next hlength => exact hfits hlength
  · next hnone =>
    have hfits : ∀ name, Fits dialect name := fun name limit hlimit => by
      rw [hnone] at hlimit
      cases hlimit
    exact ⟨hfits _, fun f _ => hfits _⟩

theorem legal_discriminatorName : Legal dialect Hierarchy.discriminatorName := by
  cases dialect <;> decide +kernel

/-- No reserved word begins with an underscore. -/
theorem reserved_head : ∀ word ∈ coreWords ++ ownWords dialect, word.toList.head? ≠ some '_' := by
  have hcore : ∀ word ∈ coreWords, word.toList.head? ≠ some '_' := by decide +kernel
  have hown : ∀ word ∈ ownWords dialect, word.toList.head? ≠ some '_' := by
    cases dialect <;> decide +kernel
  exact List.forall_mem_append.mpr ⟨hcore, hown⟩

theorem legal_identityName (h : Legal dialect name) : Legal dialect (identityName name) := by
  have hlist : (identityName name).toList = '_' :: (name.toList ++ "Interface".toList) := by
    simp only [identityName, String.toList_append, List.append_assoc]
    rfl
  constructor
  · have hspace := h.1
    unfold Text.hasSpace at hspace ⊢
    rw [hlist, List.any_cons, List.any_append, hspace]
    decide
  · rw [← Bool.not_eq_true]
    intro hreserved
    have hmem : Text.upper (identityName name) ∈ coreWords ++ ownWords dialect := by
      simpa [isReserved] using hreserved
    refine reserved_head _ hmem ?_
    rw [Text.upper, String.toList_ofList, hlist, List.flatMap_cons]
    have hupper : Text.Casing.upperChar '_' = ['_'] := by decide
    rw [hupper]
    rfl

end Identifier

open Entity (isChange_keepsLinks)
open Identifier (Legal Lowered Recased Fits)

/-! ### Completed models -/

/-- A legal name, and fields whose names are those of legal ones in lower case. -/
def Entity.Declares (dialect : Dialect) (e : Entity) : Prop :=
  Legal dialect e.name ∧ ∀ f ∈ e.fields, Lowered dialect f.name

/-- An entity that a link names, and whose columns are called as the link says. -/
def Model.Links (m : Model) (dialect : Dialect) (e : Entity) : Prop :=
  ∃ columns, m.LinkedBy dialect e.name columns ∧ ∀ f ∈ e.fields, f.name ∈ columns

namespace Pass

/-- Up to references, every name of a field is that of a legal one in lower case. -/
theorem completeReferences_lowered {m₁ m₂ : Model} {warnings : List Warning}
    (hnodup : m.entityNames.Nodup) (hnames : Ends (completeNames options.dialect) m () m₁)
    (hkeys : Ends (completeKeys options) m₁ warnings m₂)
    (hreferences : Ends completeReferences m₂ () m') :
    m'.AllFields fun f => Lowered options.dialect f.name := by
  have hname : ∀ {f f' : Field}, f'.outline = f.outline → f'.name = f.name :=
    Field.name_of_outline
  obtain ⟨-, hm⟩ := Identifier.checkModel_ok (completeNames_checked hnames)
  have hm₁ := hm.outline (fun f f' h hf => (hname h).symm ▸ hf)
    (Link.assignNames_outline (completeNames_steps hnames))
  have hnodup₁ := (completeNames_standing hnames).nodup isChange_sameStanding hnodup
  have hm₂ := completeKeys_fields hnodup₁ (fun _ _ _ h => h)
    (fun _ _ => Identifier.legal_discriminatorName) (fun _ _ _ h => h) hm₁ hkeys
  exact completeReferences_fields (fun f f' h hf => (hname h).symm ▸ hf)
    (fun f f' h hf => ⟨f.name, hf, hname h⟩) hm₂ hreferences

theorem completeTables_fits {u : Unit} (h : Ends (completeTables options) m u m') :
    m'.All fun e => Fits options.dialect e.name ∧ ∀ f ∈ e.fields, Fits options.dialect f.name := by
  obtain ⟨_, -, -, hsizes⟩ := completeTables_steps h
  exact Identifier.checkSizes_ok hsizes

theorem complete_names {warnings : List Warning} (hm : m.Distinct)
    (h : Ends (complete options) m warnings m') :
    m'.All fun e => e.Declares options.dialect ∨ m'.Links options.dialect e := by
  obtain ⟨m₁, m₂, m₃, m₄, hnames, hkeys, hreferences, hlinks, htables⟩ := complete_steps h
  have houtline : ∀ {P : String → Prop} (f f' : Field), f'.outline = f.outline →
      P f.name → P f'.name := fun f f' h hf => (Field.name_of_outline h).symm ▸ hf
  have hstanding := complete_standing hm.names hnames hkeys hreferences
  have hordered := completeReferences_ordered hm hnames hkeys hreferences
  have hlowered := completeReferences_lowered hm.names hnames hkeys hreferences
  have hdiscriminator : Lowered options.dialect Hierarchy.discriminatorName :=
    ⟨_, Identifier.legal_discriminatorName, Hierarchy.lower_discriminatorName⟩
  have hlegal : ∀ name ∈ m₃.entityNames, Legal options.dialect name := by
    intro name hname
    rw [hstanding.entityNames isChange_sameStanding, List.append_nil] at hname
    obtain ⟨e, he, rfl⟩ := List.mem_map.mp hname
    exact (Identifier.checkModel_ok (completeNames_checked hnames)).1 e he
  obtain ⟨made, hlinked, hroots, hmade⟩ := completeLinks_made hordered hlinks
  have hnodup₄ := hlinked.nodup isChange_sameOutline hordered.names
  obtain ⟨hadded, hm'⟩ := completeTables_encloses ((hordered.closed.encloses hlowered).outline
    (houtline (P := Lowered options.dialect)) hlinked) (houtline (P := Lowered options.dialect))
    (fun _ h => h) (fun _ _ _ _ => hdiscriminator) htables
  intro e he
  have hname : e.name ∈ m'.entityNames := List.mem_map_of_mem he
  rw [hadded, hlinked.entityNames isChange_sameOutline, List.mem_append, List.mem_append] at hname
  rcases hname with (hold | hlink) | hidentity
  · exact .inl ⟨hlegal e.name hold, hm'.fields e he (.inl hold)⟩
  · obtain ⟨j, hj, ⟨new, hnew, hsame⟩, hcolumns⟩ := hmade e.name hlink
    have halone := completeTables_alone hnodup₄ hnew hsame hj
      (fun hroot => hlinked.fresh hlink (hroots _ hroot))
      (houtline (P := (· ∈ j.fields.map (·.name)))) (fun _ h => h)
      (fun f hf => List.mem_map_of_mem hf) htables
    obtain ⟨added, hlinks⟩ := completeTables_links hnodup₄ htables
    exact .inr ⟨_, hcolumns.evolves hlinks, halone.fields e he (.inl rfl)⟩
  · -- roots are old entities, so what is made of their names is legal
    obtain ⟨root, hroot, hname⟩ := List.mem_map.mp hidentity
    have hold : root ∈ m₃.entityNames := by
      unfold identified at hroot
      split at hroot
      · exact hroots root (List.mem_filter.mp hroot).2
      · cases hroot
    exact .inl ⟨hname ▸ Identifier.legal_identityName (hlegal root hold),
      hm'.fields e he (.inr ⟨root, hroot, hold, hname.symm⟩)⟩

end Pass

/-! ### Compiled models -/

/-- No name of an entity or a field of the model is illegal or too long. -/
def Model.LegallyNamed (dialect : Dialect) (m : Model) : Prop :=
  ∀ e ∈ m.entities, ∀ name ∈ e.name :: e.fields.map (·.name),
    Legal dialect name ∧ Fits dialect name

/-- After a compilation no name is too long. The name of an entity is legal, and those of
its fields have no white space in them and are legal, or were legal before they were put
in lower case; unless a link names the entity, and with it the columns. -/
theorem compiled_names_legal {library : Screens.Library} {schemas : List String}
    {screens : Option String} {c : Compiled} {e : Entity}
    (h : Compilation.compile options library schemas screens = .ok c)
    (he : e ∈ c.model.entities) :
    (∀ name ∈ e.name :: e.fields.map (·.name), Fits options.dialect name) ∧
    (Legal options.dialect e.name ∧ (∀ f ∈ e.fields, Text.hasSpace f.name = false ∧
        (Legal options.dialect f.name ∨ Recased options.dialect f.name)) ∨
      c.model.Links options.dialect e) := by
  obtain ⟨m, m', warnings, hdistinct, hcomplete, heq, -⟩ := Compilation.compile_steps h
  rw [heq] at he
  obtain ⟨_, _, _, m₄, -, -, -, -, htables⟩ := Pass.complete_steps hcomplete
  obtain ⟨hname, hfields⟩ := Pass.completeTables_fits htables e he
  refine ⟨List.forall_mem_cons.mpr ⟨hname, List.forall_mem_map.mpr hfields⟩, ?_⟩
  rcases Pass.complete_names hdistinct hcomplete e he with ⟨hlegal, hlowered⟩ | ⟨columns, hlinks⟩
  · exact .inl ⟨hlegal, fun f hf => (hlowered f hf).legal⟩
  · exact .inr ⟨columns, hlinks.1.evolves (.of_eq isChange_keepsLinks heq), hlinks.2⟩

/-- Many-to-many tags of items, by a link whose name is reserved. -/
def tags : String :=
  "<m><entity name='Item'><field name='id' type='autoid'/>" ++
  "<field name='tags' type='mref' xref_entity='Item' mref_name='Select'/></entity></m>"

theorem tags_illegal : ∃ c, Compilation.compile {} Screens.noLibrary [tags] none = .ok c ∧
    ∃ e ∈ c.model.entities, e.name = "Select" ∧ ¬Legal Dialect.generic e.name := by
  have hrun : (Compilation.compile {} Screens.noLibrary [tags] none).toOption.any
      (fun c => ∃ e ∈ c.model.entities, e.name = "Select" ∧ ¬Legal .generic e.name) = true := by
    decide +kernel
  obtain ⟨c, hc, hillegal⟩ := Except.exists_ok_and hrun
  exact ⟨c, hc, of_decide_eq_true hillegal⟩

theorem tags_links : ∃ c, Compilation.compile {} Screens.noLibrary [tags] none = .ok c ∧
    ∃ e ∈ c.model.entities, e.name = "Select" ∧ c.model.Links .generic e := by
  obtain ⟨c, hc, e, he, hname, hillegal⟩ := tags_illegal
  refine ⟨c, hc, e, he, hname, ?_⟩
  rcases (compiled_names_legal hc he).2 with ⟨hlegal, -⟩ | hlinks
  · exact absurd hlegal hillegal
  · exact hlinks

theorem compiled_names_not_all_legal : ¬∀ options library schemas screens c,
    Compilation.compile options library schemas screens = .ok c →
    c.model.LegallyNamed options.dialect := by
  intro hall
  obtain ⟨c, hc, e, he, -, hillegal⟩ := tags_illegal
  exact hillegal (hall _ _ _ _ c hc e he e.name List.mem_cons_self).1

end EntitySchema
