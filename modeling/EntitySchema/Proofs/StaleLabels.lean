import EntitySchema.Proofs.Documents
import EntitySchema.Proofs.Labels

/-! Labels that went stale. In a compiled model a label can be shown for its target,
but for three kinds: what an entity without a table hands on unchecked, what an entity
hands on in the letter case that an inherited field had before, and what a key field
had for a label when the reference was resolved. -/

namespace EntitySchema

open Model (Evolves ProvidesAll)
open Entity (SameBearing SameOutline Grows isChange_grows isChange_sameOutline
  isChange_sameStanding)
open Reference (IsPath IsShown Composed Fits candidateLabels)

variable {m m' : Model} {added : List String} {t : Target} {label : String} {options : Options}

/-! ### Labels that are handed on -/

/-- The reference shows what its target shows; a target with a table sees that, as it
is written or in lower case. -/
def Reference.HandedOn (m : Model) (t : Target) : Prop :=
  ∃ e, m.entity? t.entity = some e ∧ e.labels = some t.labels ∧
    (e.isAbstract = false → ∀ label ∈ t.labels,
      m.Sees t.entity label ∨ m.Sees t.entity (Text.lower label))

/-- The labels of the field fit where it refers to, or were handed on to it. -/
def Model.Traced (m : Model) (f : Field) : Prop :=
  ∀ t, f.target? = some t → (∀ label ∈ t.labels, Fits m t.entity label) ∨ Reference.HandedOn m t

theorem Reference.HandedOn.grows (h : HandedOn m t) (hm : Evolves Grows added m m') :
    HandedOn m' t := by
  obtain ⟨e, he, hlabels, hsees⟩ := h
  obtain ⟨e', he', hgrows⟩ := hm.entity? isChange_grows he
  refine ⟨e', he', hgrows.labels.trans hlabels, fun hconcrete label hlabel => ?_⟩
  rw [hgrows.isAbstract] at hconcrete
  exact (hsees hconcrete label hlabel).imp (·.grows hm) (·.grows hm)

theorem Model.Traced.grows {f : Field} (h : m.Traced f) (hm : Evolves Grows added m m') :
    m'.Traced f := fun t ht =>
  (h t ht).imp (fun hfits label hlabel => (hfits label hlabel).grows hm) (·.grows hm)

/-- A reference keeps its labels, or takes those of its target. -/
theorem Reference.relabel_ok (m : Model) (t : Target) : relabel m t = t ∨
    ∃ e labels, m.entity? t.entity = some e ∧ e.labels = some labels ∧
      relabel m t = { t with labels } := by
  unfold relabel
  split
  · split
    · split
      · next labels hlabels =>
        obtain ⟨e, he, hlabels⟩ := Option.bind_eq_some_iff.mp hlabels
        exact .inr ⟨e, labels, he, hlabels, rfl⟩
      · exact .inl rfl
    · exact .inl rfl
  · exact .inl rfl

theorem Reference.propagateLabels_traced (hm : m.Labelled) :
    ∀ e ∈ (propagateLabels m).entities, ∀ f ∈ e.fields, (propagateLabels m).Traced f := by
  have hgrows : Evolves Grows [] m (propagateLabels m) :=
    (propagateLabels_bearing m).mono fun _ _ h => h.sameOutline.grows
  intro e' he' f' hf'
  obtain ⟨e, he, rfl⟩ := List.mem_map.mp he'
  obtain ⟨f, hf, rfl⟩ := List.mem_map.mp hf'
  refine Model.Traced.grows (fun t' ht' => ?_) hgrows
  rw [Field.target?_mapTarget] at ht'
  obtain ⟨t, ht, rfl⟩ := Option.map_eq_some_iff.mp ht'
  rcases relabel_ok m t with hsame | ⟨target, labels, htarget, hlabels, hsame⟩
  · rw [hsame]
    exact .inl (hm.fit e he f hf t ht)
  · -- what the target shows was put in lower case with it, but for inherited fields
    rw [hsame]
    refine .inr ⟨target, htarget, hlabels, fun hconcrete label hlabel => ?_⟩
    have hsees := hm.folded target (Model.entity?_mem htarget) hconcrete labels hlabels label hlabel
    rwa [Model.entity?_name htarget] at hsees

/-! ### Completed models -/

namespace Pass

theorem completeReferences_labelled (hnodup : m.entityNames.Nodup) (hfields : m.DistinctFields)
    (hm : m.ShowsVisible) (h : Ends completeReferences m () m') : m'.Labelled :=
  ⟨completeReferences_distinct hfields h,
    completeReferences_holds Model.fitsField_settles hnodup h, completeReferences_folded hm h⟩

theorem completeLinks_labelled {dialect : Dialect} (hnodup : m.entityNames.Nodup) (hm : m.Labelled)
    (h : Ends (completeLinks dialect) m () m') : m'.Labelled := by
  obtain ⟨made, m₁, hmade, hresolve⟩ := completeLinks_steps h
  have hm₁ := Link.synthesize_labelled hm hmade
  have hnodup₁ := (Link.synthesize_evolves hmade).nodup Entity.isChange_sameBearing hnodup
  have houtline := Reference.resolveEntities_outline hresolve
  exact ⟨hm₁.distinct.evolves houtline fun _ _ => SameOutline.distinct,
    Reference.resolveEntities_holds Model.fitsField_settles hnodup₁ (fun e he _ => hm₁.fit e he)
      hresolve,
    hm₁.folded.grows (houtline.mono fun _ _ h => h.grows) (by simp)⟩

theorem completeTables_traced (hnodup : m.entityNames.Nodup) (hm : m.Labelled)
    (h : Ends (completeTables options) m () m') :
    ∀ e ∈ m'.entities, ∀ f ∈ e.fields, m'.Traced f := by
  have hextension := completeTables_extension hnodup h
  obtain ⟨added, hgrows⟩ := hextension.grows
  intro e' he' f' hf' t ht
  rcases hextension.provides e' he' f' hf' with hnone | ⟨e, he, f, hf, hcopies⟩
  · rw [hnone] at ht
    cases ht
  · rw [hcopies.target?] at ht
    exact (Reference.propagateLabels_traced hm e he f hf).grows hgrows t ht

/-- Every label of a completed model fits its target, or was handed on by it. -/
theorem complete_traced {warnings : List Warning} (hm : m.Distinct)
    (h : Ends (complete options) m warnings m') :
    ∀ e ∈ m'.entities, ∀ f ∈ e.fields, m'.Traced f := by
  obtain ⟨m₁, m₂, m₃, m₄, hnames, hkeys, hreferences, hlinks, htables⟩ := complete_steps h
  have hnodup₁ := (completeNames_standing hnames).nodup isChange_sameStanding hm.names
  have hnodup₂ := (completeKeys_standing hnodup₁ hkeys).nodup isChange_sameStanding hnodup₁
  have hnodup₃ := (completeReferences_standing hreferences).nodup isChange_sameStanding hnodup₂
  obtain ⟨added, hlinked⟩ := completeLinks_grows hlinks
  have hnodup₄ := hlinked.nodup isChange_grows hnodup₃
  have hfields := completeKeys_distinct hnodup₁ (completeNames_distinct hm.fields hnames) hkeys
  have hlabelled := completeReferences_labelled hnodup₂ hfields (completeKeys_visible hnodup₁ hkeys)
    hreferences
  exact completeTables_traced hnodup₄ (completeLinks_labelled hnodup₃ hlabelled hlinks) htables

end Pass

/-! ### Labels that cannot be shown -/

namespace Reference

/-- What became of a label that its target does not show. -/
inductive Cause (m : Model) (t : Target) (label : String) : Prop
  /-- An entity without a table hands it on; the labels of those are not checked. -/
  | unchecked {e : Entity} (entity : m.entity? t.entity = some e)
      (labels : e.labels = some t.labels) (isAbstract : e.isAbstract = true)
  /-- An entity hands it on that has a field of that name in lower case. -/
  | recased {e : Entity} (entity : m.entity? t.entity = some e)
      (labels : e.labels = some t.labels) (sees : m.Sees t.entity (Text.lower label))
  /-- It begins with a key field that is a reference, whose labels were others when it
  was resolved. -/
  | outrun (composed : Composed m t.entity label)

/-- The label names nothing, and is one of those that can come to name nothing. -/
structure Stale (m : Model) (t : Target) (label : String) : Prop where
  pathless : ¬IsPath m label
  unseen : ¬m.Sees t.entity label
  uncomposed : label ∉ candidateLabels m t.entity
  cause : Cause m t label

end Reference

open Reference (Cause Stale)

/-- A reference of the model shows the label for its target. -/
def Model.Mentions (m : Model) (t : Target) (label : String) : Prop :=
  ∃ e ∈ m.entities, ∃ f ∈ e.fields, f.target? = some t ∧ label ∈ t.labels

instance : Decidable (m.Mentions t label) :=
  inferInstanceAs (Decidable (∃ e ∈ m.entities, ∃ f ∈ e.fields, _ ∧ _))

/-- The model has a reference that cannot show the label for its target. -/
def Model.Misses (m : Model) (t : Target) (label : String) : Prop :=
  m.Mentions t label ∧ ¬IsShown m t.entity label

instance : Decidable (m.Misses t label) := inferInstanceAs (Decidable (_ ∧ ¬_))

theorem Model.Traced.cause {f : Field} (h : m.Traced f) (ht : f.target? = some t)
    (hlabel : label ∈ t.labels) (hpath : ¬IsPath m label) (hsees : ¬m.Sees t.entity label) :
    Cause m t label := by
  rcases h t ht with hfits | ⟨e, he, hlabels, hfolded⟩
  · rcases hfits label hlabel with hpath' | hsees' | hcomposed
    · exact absurd hpath' hpath
    · exact absurd hsees' hsees
    · exact .outrun hcomposed
  · cases hconcrete : e.isAbstract with
    | true => exact .unchecked he hlabels hconcrete
    | false => exact .recased he hlabels ((hfolded hconcrete label hlabel).resolve_left hsees)

/-- Where every label was traced, those that cannot be shown are the stale ones. -/
theorem Model.shown_iff_of_traced (hm : ∀ e ∈ m.entities, ∀ f ∈ e.fields, m.Traced f)
    (hlabel : m.Mentions t label) : IsShown m t.entity label ↔ ¬Stale m t label := by
  constructor
  · rintro (hpath | hsees | hcandidate) hstale
    · exact hstale.pathless hpath
    · exact hstale.unseen hsees
    · exact hstale.uncomposed hcandidate
  · intro hfresh
    by_contra hshown
    obtain ⟨hpath, hshown⟩ := not_or.mp hshown
    obtain ⟨hsees, hcandidate⟩ := not_or.mp hshown
    obtain ⟨e, he, f, hf, ht, hlabel⟩ := hlabel
    exact hfresh ⟨hpath, hsees, hcandidate, (hm e he f hf).cause ht hlabel hpath hsees⟩

/-- Loans show people by names in the end; fines show the number that loans showed. -/
def loans : Model :=
  let identity : Field := { Field.named "id" .int with auto := true }
  { Model.empty with entities := [
      { Entity.named "Person" with
        fields := [identity, Field.named "nick" .int]
        keys := [{ fields := ["id"] }, { fields := ["nick"] }] },
      { Entity.named "Loan" with
        fields := [identity, Field.named "owner" (.xref { entity := "Person" })]
        keys := [{ fields := ["id"] }, { fields := ["owner"] }] },
      { Entity.named "Fine" with
        fields := [identity,
          Field.named "loan" (.xref { entity := "Loan", labels := ["owner_id"] })]
        keys := [{ fields := ["id"] }] }] }

example : ((Pass.complete {}).run loans).2.Misses
    { entity := "Loan", field := "id", labels := ["owner_id"] } "owner_id" := by decide +kernel

/-- After a compilation, a label can be shown for its target exactly when it is not
stale. -/
theorem compiled_label_shown_iff {library : Screens.Library} {schemas : List String}
    {screens : Option String} {c : Compiled}
    (h : Compilation.compile options library schemas screens = .ok c)
    (hlabel : c.model.Mentions t label) :
    IsShown c.model t.entity label ↔ ¬Stale c.model t label := by
  obtain ⟨m, m', warnings, hdistinct, hcomplete, heq, -⟩ := Compilation.compile_steps h
  refine Model.shown_iff_of_traced (fun e he f hf => ?_) hlabel
  exact (Pass.complete_traced hdistinct hcomplete e (heq ▸ he) f hf).grows
    (.of_eq isChange_grows heq)

/-- Books are items, and have a code as items, which is not in lower case; notes show
books by it. -/
def notes : String :=
  "<m><entity name='Item'><field name='id' type='autoid'/>" ++
  "<field name='Code' type='int' unique='true'/></entity>" ++
  "<entity name='Book' extends='Item'/><entity name='Note'>" ++
  "<field name='id' type='autoid'/><field name='book' type='xref' xref_entity='Book'/></entity></m>"

/-- What a note refers to in the end. -/
def shownBook : Target := { entity := "Book", field := "id", labels := ["Code"] }

theorem notes_misses : ∃ c, Compilation.compile {} Screens.noLibrary [notes] none = .ok c ∧
    c.model.Misses shownBook "Code" := by
  have hrun : (Compilation.compile {} Screens.noLibrary [notes] none).toOption.any
      (fun c => c.model.Misses shownBook "Code") = true := by decide +kernel
  obtain ⟨c, hc, hmisses⟩ := Except.exists_ok_and hrun
  exact ⟨c, hc, of_decide_eq_true hmisses⟩

theorem notes_stale : ∃ c, Compilation.compile {} Screens.noLibrary [notes] none = .ok c ∧
    c.model.Mentions shownBook "Code" ∧ Stale c.model shownBook "Code" := by
  obtain ⟨c, hc, hmentions, hunshown⟩ := notes_misses
  refine ⟨c, hc, hmentions, ?_⟩
  by_contra hfresh
  exact hunshown ((compiled_label_shown_iff hc hmentions).mpr hfresh)

theorem compiled_labels_not_all_shown : ¬∀ options library schemas screens c,
    Compilation.compile options library schemas screens = .ok c →
    ∀ t label, c.model.Mentions t label → IsShown c.model t.entity label := by
  intro hall
  obtain ⟨c, hc, hmentions, hunshown⟩ := notes_misses
  exact hunshown (hall _ _ _ _ c hc _ _ hmentions)

end EntitySchema
