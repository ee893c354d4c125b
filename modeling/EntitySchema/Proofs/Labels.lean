import EntitySchema.Proofs.DisplayLabels
import EntitySchema.Proofs.DistinctFields

/-! Labels of references. A label that resolution accepts is a path, a visible field of
the target, or the name of a key field that is a reference with a label of that
reference behind it. Of these three, each stays what it is while entities grow, even
when the labels of the key field change; and the columns of link entities show only
what the fields show for which they are made. -/

namespace EntitySchema

open Model (Evolves)
open Entity (SameBearing SameOutline Grows isChange_grows isChange_sameBearing)
open Reference (IsPath IsShown candidateLabels)

variable {m m' : Model} {added : List String} {e e' : Entity} {f f' : Field} {t : Target}
  {entity label : String}

/-! ### What a label can be -/

theorem Field.isReference_of_outline (h : f'.outline = f.outline) :
    f'.type.isReference = f.type.isReference := by
  have hreference : ∀ t : FieldType, t.outline.isReference = t.isReference :=
    fun t => by cases t <;> rfl
  rw [← hreference, ← hreference f.type]
  exact congrArg (·.type.isReference) h

theorem FieldType.isReference_of_target? {type : FieldType} (h : type.target? = some t) :
    type.isReference = true := by
  cases type <;> first | rfl | cases h

theorem Field.target?_mapTarget (f : Field) (change : Target → Target) :
    { f with type := f.type.mapTarget change }.target? = f.target?.map change := by
  rcases f with ⟨_, _, type⟩
  cases type <;> rfl

theorem Field.target?_mapLink (f : Field) (change : Link → Link) :
    { f with type := f.type.mapLink change }.target? = f.target? := by
  rcases f with ⟨_, _, type⟩
  cases type <;> rfl

namespace Reference

/-- The label begins with a field that is in a key of the entity, and that an entity
of its lineage has as a reference. -/
def Composed (m : Model) (entity label : String) : Prop :=
  ∃ key rest, label = key ++ "_" ++ rest ∧ m.Keyed entity key ∧
    ∃ e ∈ m.lineage entity, ∃ f ∈ e.fields, f.name = key ∧ f.type.isReference = true

/-- The label is of one of the forms that a label has when it is resolved. -/
def Fits (m : Model) (entity label : String) : Prop :=
  IsPath m label ∨ m.Sees entity label ∨ Composed m entity label

theorem IsPath.grows (h : IsPath m label) (hm : Evolves Grows added m m') : IsPath m' label := by
  obtain ⟨e, he, field, hsees, rfl⟩ := h
  obtain ⟨e', he', hgrows⟩ := hm.kept he
  exact ⟨e', he', field, hgrows.name ▸ hsees.grows hm, by rw [hgrows.name]⟩

theorem Composed.grows (h : Composed m entity label) (hm : Evolves Grows added m m') :
    Composed m' entity label := by
  obtain ⟨key, rest, rfl, hkeyed, e, he, f, hf, hname, hreference⟩ := h
  obtain ⟨e', he', hgrows⟩ := Model.lineage_grows hm he
  obtain ⟨f', hf', hout⟩ := hgrows.field hf
  exact ⟨key, rest, rfl, hkeyed.grows hm, e', he', f', hf',
    (Field.name_of_outline hout).trans hname, (Field.isReference_of_outline hout).trans hreference⟩

theorem Fits.grows (h : Fits m entity label) (hm : Evolves Grows added m m') :
    Fits m' entity label :=
  h.imp (·.grows hm) (Or.imp (·.grows hm) (·.grows hm))

/-- A candidate names a field itself, or is composed of a reference and what follows. -/
theorem mem_labelsOfField (h : label ∈ labelsOfField f) :
    label = f.name ∨ f.type.isReference = true ∧ ∃ rest, label = f.name ++ "_" ++ rest := by
  unfold labelsOfField at h
  split at h
  · exact .inl (List.mem_singleton.mp h)
  · next target htarget =>
    refine .inr ⟨FieldType.isReference_of_target? htarget, ?_⟩
    split at h
    · exact ⟨_, List.mem_singleton.mp h⟩
    · obtain ⟨shown, _, rfl⟩ := List.mem_map.mp h
      exact ⟨_, rfl⟩

theorem candidate_fits (h : label ∈ candidateLabels m entity) : Fits m entity label := by
  unfold candidateLabels at h
  rw [List.mem_eraseDups, List.mem_flatMap] at h
  obtain ⟨key, hkey, h⟩ := h
  have hkeyed : m.Keyed entity key := List.mem_flatMap.mp hkey
  split at h
  · next f hf =>
    have hname : f.name = key := by simpa using List.find?_some hf
    have hvisible : f ∈ m.allFields entity := List.mem_of_find?_eq_some hf
    rcases mem_labelsOfField h with rfl | ⟨hreference, rest, rfl⟩
    · exact .inr (.inl ⟨f, hvisible, rfl⟩)
    · obtain ⟨e, he, hown⟩ := Model.mem_allFields hvisible
      exact .inr (.inr ⟨key, rest, by rw [hname], hkeyed, e, he, f, hown, hname, hreference⟩)
  · cases h

theorem IsShown.fits (h : IsShown m entity label) : Fits m entity label := by
  rcases h with hpath | hsees | hcandidate
  · exact .inl hpath
  · exact .inr (.inl hsees)
  · exact candidate_fits hcandidate

end Reference

open Reference (Composed Fits)

/-! ### Labels that fit -/

/-- Whatever the field refers to, its labels fit there. -/
def Model.FitsField (m : Model) (f : Field) : Prop :=
  ∀ t, f.target? = some t → ∀ label ∈ t.labels, Fits m t.entity label

/-- The labels of all references fit. -/
def Model.LabelsFit (m : Model) : Prop := ∀ e ∈ m.entities, ∀ f ∈ e.fields, m.FitsField f

namespace Model

theorem FitsField.grows (h : m.FitsField f) (hm : Evolves Grows added m m') : m'.FitsField f :=
  fun t ht label hlabel => (h t ht label hlabel).grows hm

theorem FitsField.of_target? (h : m.FitsField f) (hf : f'.target? = f.target?) :
    m.FitsField f' := by
  unfold FitsField at h ⊢
  rwa [hf]

theorem fitsField_of_resolveField {owner : Entity}
    (h : Reference.resolveField m owner f = .ok f') : m.FitsField f' := by
  intro t ht label hlabel
  obtain ⟨e, key, hresolved⟩ := Reference.resolve_ok ((Reference.resolveField_ok h).2 t ht)
  exact (hresolved.shown label hlabel).fits

theorem fitsField_settles : Reference.Settles FitsField where
  resolved := fitsField_of_resolveField
  kept hout h := h.grows (hout.mono fun _ _ h => h.grows)

/-- What holds of labels from the resolution of references on. -/
structure Labelled (m : Model) : Prop where
  distinct : m.DistinctFields
  fit : m.LabelsFit
  folded : m.ShowsFolded

theorem Labelled.fit_of_mref {name : String} {link : Link} (hm : m.Labelled)
    (he : m.entity? name = some e) (hf : f ∈ e.fields) (htype : f.type = .mref t link) :
    ∀ label ∈ t.labels, Fits m t.entity label :=
  hm.fit e (entity?_mem he) f hf t (by simp [Field.target?, htype, FieldType.target?])

/-- An entity changes whose fields fit afterwards. -/
theorem Labelled.changeEntity {name : String} {change : Entity → Entity} (hm : m.Labelled)
    (h : ∀ e, m.entity? name = some e → SameBearing e (change e))
    (hfit : ∀ e, m.entity? name = some e → ∀ f ∈ (change e).fields, m.FitsField f) :
    (m.changeEntity name change).Labelled := by
  have hevolves : Evolves SameBearing [] m (m.changeEntity name change) :=
    .changeEntity isChange_sameBearing h
  have hgrows : Evolves Grows [] m (m.changeEntity name change) :=
    hevolves.mono fun _ _ h => h.sameOutline.grows
  refine ⟨hm.distinct.evolves hevolves fun _ _ h => h.sameOutline.distinct, ?_,
    hm.folded.grows hgrows (by simp)⟩
  intro e' he' f hf
  rcases exists_of_mem_changeFirst he' with he' | ⟨e, he, rfl⟩
  · exact (hm.fit e' he' f hf).grows hgrows
  · exact (hfit e he f hf).grows hgrows

/-- An entity joins the model that shows nothing and whose fields fit. -/
theorem Labelled.addEntity (hm : m.Labelled) (h : m.addEntity e = .ok m')
    (hdistinct : e.DistinctFields) (hlabels : e.labels = none)
    (hfit : ∀ f ∈ e.fields, m.FitsField f) : m'.Labelled := by
  have hgrows : Evolves Grows [e.name] m m' := .addEntity isChange_grows h
  refine ⟨hm.distinct.addEntity hdistinct h, ?_, hm.folded.grows hgrows ?_⟩
  · intro x hx f hf
    obtain ⟨_, rfl⟩ := addEntity_ok h
    rcases List.mem_append.mp hx with hx | hx
    · exact (hm.fit x hx f hf).grows hgrows
    · exact (hfit f (List.mem_singleton.mp hx ▸ hf)).grows hgrows
  · intro x hx hname
    obtain ⟨hnew, rfl⟩ := addEntity_ok h
    rcases List.mem_append.mp hx with hx | hx
    · have hne : x.name ≠ e.name := by
        have hnew : ∀ x ∈ m.entities, x.name ≠ e.name := by simpa [hasEntity] using hnew
        exact hnew x hx
      exact absurd (List.mem_singleton.mp hname) hne
    · rw [List.mem_singleton.mp hx, hlabels]

end Model

/-! ### Link entities -/

namespace Link

variable {dialect : Dialect} {target : Target} {link : Link} {owner name : String}

/-- The column that shows the labels of the field refers to what the field refers to. -/
theorem showing_fits {remote : String} {declared : Option String} (hdistinct : e.DistinctFields)
    (hremote : remoteColumn? e target.entity declared = some remote)
    (hlabels : ∀ label ∈ target.labels, Fits m target.entity label)
    (hfind : e.fields.find? (·.name = remote) = some f) :
    m.FitsField (showing target.labels f) := by
  -- the first field of the column's name is that column, since names are distinct
  obtain ⟨column, hcolumn, hname, -, hentity⟩ := remoteColumn?_ok hremote
  obtain rfl : f = column := List.inj_on_of_nodup_map hdistinct (List.mem_of_find?_eq_some hfind)
    hcolumn (by simpa [hname] using List.find?_some hfind)
  intro t ht label hlabel
  rw [showing, Field.target?_mapTarget] at ht
  obtain ⟨old, hold, rfl⟩ := Option.map_eq_some_iff.mp ht
  have hsame : old.entity = target.entity := by
    simpa [Field.targetEntity?, hold] using hentity
  exact hsame ▸ hlabels label hlabel

theorem reuse_labelled {field : String} {index : Nat} {existing : Entity} (hm : m.Labelled)
    (hfound : m.entity? existing.name = some existing)
    (hlabels : ∀ label ∈ target.labels, Fits m target.entity label)
    (h : reuse m owner index field target link existing = .ok m') : m'.Labelled := by
  obtain ⟨remote, own, hremote, -, rfl⟩ := reuse_ok h
  have hmem := Model.entity?_mem hfound
  have hshown : (m.changeEntity existing.name (showIn remote target.labels)).Labelled := by
    refine hm.changeEntity (fun e _ => showIn_bearing remote target.labels e) fun e he f hf => ?_
    rw [hfound] at he
    cases he
    rcases exists_of_mem_changeFirst hf with hf | ⟨f, hfind, rfl⟩
    · exact hm.fit existing hmem f hf
    · exact showing_fits (hm.distinct existing hmem) hremote hlabels hfind
  refine hshown.changeEntity (fun e _ => routeAt_bearing index own remote e) fun e he f' hf' => ?_
  have hsame : List.Forall₂ (fun f f' : Field => f'.target? = f.target?) e.fields
      (routeAt index own remote e).fields :=
    forall₂_modify (R := fun f f' : Field => f'.target? = f.target?) (fun _ => rfl)
      fun f _ => Field.target?_mapLink f _
  obtain ⟨f, hf, hsame⟩ := exists_of_forall₂_right hsame hf'
  exact (hshown.fit e (Model.entity?_mem he) f hf).of_target? hsame

/-- A column for the owner shows the key field that it refers to. -/
theorem ownerColumn_fits {localId : String} {several : Bool} (hf : f ∈ m.primaryKeyFields owner) :
    m.FitsField (ownerColumn dialect owner localId several f) := by
  intro t ht label hlabel
  cases ht
  obtain rfl := List.mem_singleton.mp hlabel
  exact .inr (.inl ⟨f, (Model.mem_primaryKeyFields hf).2, rfl⟩)

theorem make_labelled {field : String} {x : Entity} (hm : m.Labelled)
    (hlabels : ∀ label ∈ target.labels, Fits m target.entity label)
    (hmake : make m dialect e field target link name = .ok x) (h : m.addEntity x = .ok m') :
    m'.Labelled := by
  obtain ⟨localId, remoteId, _, _, _, hcolumns⟩ := make_ok hmake
  have hx := withColumns_ok hcolumns
  have hplain : (plainEntity e field name).DistinctFields := by
    simp [Entity.DistinctFields, plainEntity]
  have hnone : x.labels = none := by rw [hx]; rfl
  refine hm.addEntity h (withColumns_distinct hplain hcolumns) hnone fun f hf => ?_
  rw [hx] at hf
  rcases List.mem_append.mp hf with hf | hf
  · rw [plainEntity, List.mem_singleton] at hf
    subst hf
    intro t ht
    cases ht
  · rcases List.mem_append.mp hf with hf | hf
    · obtain ⟨key, hkey, rfl⟩ := List.mem_map.mp hf
      exact ownerColumn_fits hkey
    · obtain rfl := List.mem_singleton.mp hf
      intro t ht
      cases ht
      exact hlabels

theorem synthesize_labelled {made : List String} (hm : m.Labelled)
    (h : Ends (synthesize dialect) m made m') : m'.Labelled := by
  refine synthesize_rel (fun _ m m' => m.Labelled → m'.Labelled) (fun _ => id)
    (fun h₁ h₂ => h₂ ∘ h₁) (fun hbacked hm => ?_) h hm
  cases hbacked with
  | reused hown hf htype _ hfound hreuse =>
    exact reuse_labelled hm (Model.entity?_self hfound)
      (hm.fit_of_mref hown (List.mem_of_getElem? hf) htype) hreuse
  | made hown hf htype _ hmake hadd =>
    exact make_labelled hm (hm.fit_of_mref hown (List.mem_of_getElem? hf) htype) hmake hadd

end Link

end EntitySchema
