import EntitySchema.Proofs.Completion
import EntitySchema.Proofs.Documents

/-! Referential integrity. Resolution makes every reference point at a visible field
of its target that is in one of its keys. The passes behind it only let entities
grow, copy references as they are, and resolve the references that they make, so
that the same holds of the completed model. -/

namespace EntitySchema

open Model (Evolves ProvidesAll)
open Entity (SameOutline Grows isChange_sameOutline isChange_sameBearing isChange_sameStanding)

/-- The reference points at a visible field of an entity, which is in one of its keys. -/
structure PointsAtKey (m : Model) (origin : Origin) (t : Target) : Prop where
  entity : ∃ e, m.entity? t.entity = some e ∧
    (e.isAbstract = true → origin = .inheritedKey ∨ origin = .constraintCopy)
  field : ∃ key, t.field = some key ∧ m.Sees t.entity key ∧ m.Keyed t.entity key

/-- If the field is a reference, it points at a key. -/
def Model.Backs (m : Model) (f : Field) : Prop :=
  ∀ t, f.target? = some t → PointsAtKey m f.origin t

variable {m m' : Model} {added : List String} {f f' : Field} {options : Options}

theorem PointsAtKey.grows {origin : Origin} {t : Target} (h : PointsAtKey m origin t)
    (hm : Evolves Grows added m m') : PointsAtKey m' origin t := by
  obtain ⟨e, he, hconcrete⟩ := h.entity
  obtain ⟨key, hkey, hsees, hkeyed⟩ := h.field
  obtain ⟨e', he', hgrows⟩ := hm.entity? Entity.isChange_grows he
  exact ⟨⟨e', he', fun h => hconcrete (hgrows.isAbstract ▸ h)⟩,
    ⟨key, hkey, hsees.grows hm, hkeyed.grows hm⟩⟩

theorem Model.Backs.grows (h : m.Backs f) (hm : Evolves Grows added m m') : m'.Backs f :=
  fun t ht => (h t ht).grows hm

/-- Only the labels of the reference are others. -/
theorem Model.Backs.bearing (h : m.Backs f) (hf : f'.bearing = f.bearing) : m.Backs f' := by
  intro t' ht'
  obtain ⟨t, ht, hentity, hfield⟩ := Field.target?_of_bearing hf ht'
  have horigin : f'.origin = f.origin := Field.origin_of_outline (Field.outline_of_bearing hf)
  obtain ⟨he, hkey⟩ := h t ht
  rw [horigin]
  exact ⟨hentity ▸ he, hfield ▸ hentity ▸ hkey⟩

theorem Model.Backs.copies (h : m.Backs f) (hf : f.Copies f') : m.Backs f' := by
  intro t ht
  rw [hf.target?] at ht
  rcases hf.2 with horigin | horigin
  · rw [horigin]; exact h t ht
  · obtain ⟨⟨e, he, _⟩, hkey⟩ := h t ht
    exact ⟨⟨e, he, fun _ => .inr horigin⟩, hkey⟩

theorem backs_of_resolveField {owner : Entity} (h : Reference.resolveField m owner f = .ok f') :
    m.Backs f' := by
  intro t ht
  obtain ⟨hout, hresolve⟩ := Reference.resolveField_ok h
  obtain ⟨e, key, hres⟩ := Reference.resolve_ok (hresolve t ht)
  rw [Field.origin_of_outline hout]
  exact ⟨⟨e, hres.entity, fun h => .inl (hres.concrete h)⟩,
    ⟨key, hres.field, hres.sees, hres.keyed⟩⟩

theorem backs_settles : Reference.Settles Model.Backs where
  resolved := backs_of_resolveField
  kept hout h := h.grows (hout.mono fun _ _ h => h.grows)

/-- All references of the model point at keys. -/
def Model.Intact (m : Model) : Prop := ∀ e ∈ m.entities, ∀ f ∈ e.fields, m.Backs f

theorem Model.Intact.bearing (h : m.Intact) (hm : Evolves Entity.SameBearing added m m') :
    ∀ e' ∈ m'.entities, e'.name ∉ added → ∀ f' ∈ e'.fields, m'.Backs f' := by
  intro e' he' hname f' hf'
  obtain ⟨e, he, hsame⟩ := (hm.mem he').resolve_right hname
  obtain ⟨f, hf, hbearing⟩ := List.mem_map.mp (hsame.1 ▸ List.mem_map_of_mem hf')
  exact ((h e he f hf).bearing hbearing.symm).grows (hm.mono fun _ _ h => h.sameOutline.grows)

theorem Model.Intact.provides (h : m.Intact) (hm : Evolves Grows added m m')
    (hprovides : ProvidesAll m m') : m'.Intact := by
  intro e' he' f' hf'
  rcases hprovides e' he' f' hf' with hnone | ⟨e, he, f, hf, hcopies⟩
  · intro t ht
    rw [hnone] at ht
    cases ht
  · exact ((h e he f hf).copies hcopies).grows hm

/-! ### Completed models -/

theorem completeReferences_intact (hnodup : m.entityNames.Nodup)
    (h : Ends Pass.completeReferences m () m') : m'.entityNames.Nodup ∧ m'.Intact :=
  ⟨(Pass.completeReferences_standing h).nodup isChange_sameStanding hnodup,
    Pass.completeReferences_holds backs_settles hnodup h⟩

theorem completeLinks_intact {dialect : Dialect} (hnodup : m.entityNames.Nodup) (hm : m.Intact)
    (h : Ends (Pass.completeLinks dialect) m () m') : m'.entityNames.Nodup ∧ m'.Intact := by
  obtain ⟨made, m₁, hmade, hresolve⟩ := Pass.completeLinks_steps h
  have hevolves := Link.synthesize_evolves hmade
  have hnodup := hevolves.nodup isChange_sameBearing hnodup
  exact ⟨(Reference.resolveEntities_outline hresolve).nodup isChange_sameOutline hnodup,
    Reference.resolveEntities_holds backs_settles hnodup (hm.bearing hevolves) hresolve⟩

theorem completeTables_intact (hnodup : m.entityNames.Nodup) (hm : m.Intact)
    (h : Ends (Pass.completeTables options) m () m') : m'.Intact := by
  have hlabels := Reference.propagateLabels_bearing m
  have hextension := completeTables_extension hnodup h
  obtain ⟨added, hgrows⟩ := hextension.grows
  have hshown : (Reference.propagateLabels m).Intact :=
    fun e he => hm.bearing hlabels e he (by simp)
  exact hshown.provides hgrows hextension.provides

theorem complete_intact {warnings : List Warning} (hnodup : m.entityNames.Nodup)
    (h : Ends (Pass.complete options) m warnings m') : m'.Intact := by
  obtain ⟨m₁, m₂, m₃, m₄, hnames, hkeys, hreferences, hlinks, htables⟩ := Pass.complete_steps h
  have hnodup := (Pass.completeNames_standing hnames).nodup isChange_sameStanding hnodup
  have hnodup := (Pass.completeKeys_standing hnodup hkeys).nodup isChange_sameStanding hnodup
  obtain ⟨hnodup, hintact⟩ := completeReferences_intact hnodup hreferences
  obtain ⟨hnodup, hintact⟩ := completeLinks_intact hnodup hintact hlinks
  exact completeTables_intact hnodup hintact htables

/-- Every own reference of every entity points at a visible field of an entity of the
model, which one of the visible keys of that entity names; and where the reference
was declared, or moved from an interface, that entity has a table. -/
def Model.Referential (m : Model) : Prop :=
  ∀ e ∈ m.entities, ∀ f ∈ e.fields, ∀ t, f.target? = some t →
    ∃ target name, m.entity? t.entity = some target ∧ t.field = some name ∧
      m.Sees target.name name ∧ m.Keyed target.name name ∧
      (f.origin = .declared ∨ f.origin = .interfaceMref → target.isAbstract = false)

theorem Model.Intact.referential (h : m.Intact) : m.Referential := by
  intro e he f hf t ht
  obtain ⟨⟨target, htarget, hconcrete⟩, name, hname, hsees, hkeyed⟩ := h e he f hf t ht
  have heq := Model.entity?_name htarget
  refine ⟨target, name, htarget, hname, heq ▸ hsees, heq ▸ hkeyed, fun horigin => ?_⟩
  rw [← Bool.not_eq_true]
  intro habstract
  rcases horigin with horigin | horigin <;> rcases hconcrete habstract with h | h <;>
    rw [horigin] at h <;> cases h

/-- Completion of a model of distinct entities, and so every compilation, leaves no
reference that points at nothing. -/
theorem completed_referential :
    (∀ options m warnings m', m.entityNames.Nodup →
      Ends (Pass.complete options) m warnings m' → m'.Referential) ∧
    (∀ options library schemas screens c,
      Compilation.compile options library schemas screens = .ok c → c.model.Referential) := by
  constructor
  · intro options m warnings m' hnodup h
    exact (complete_intact hnodup h).referential
  · intro options library schemas screens c h
    obtain ⟨m, m', warnings, hdistinct, hcomplete, heq, -⟩ := Compilation.compile_steps h
    have hsame : Evolves Grows [] m' c.model := .of_eq Entity.isChange_grows heq
    exact ((complete_intact hdistinct.names hcomplete).provides hsame (.of_eq heq)).referential

/-- Members belong to any number of clubs; trainers are members. -/
def clubs : Model :=
  let identity : Field := { Field.named "id" .int with auto := true }
  { Model.empty with entities := [
      { Entity.named "Club" with fields := [identity], keys := [{ fields := ["id"] }] },
      { Entity.named "Member" with
        fields := [identity, Field.named "clubs" (.mref { entity := "Club" } {})]
        keys := [{ fields := ["id"] }] },
      { Entity.named "Trainer" with parents := ["Member"] }] }

theorem clubs_referential :
    (∃ m', Ends (Pass.complete { mapping := .classPerTable }) clubs [] m' ∧ m'.Referential) ∧
    ∃ c, Compilation.compile {} Screens.noLibrary
      ["<m><entity name='A'><field name='id' type='autoid'/></entity></m>"] none = .ok c ∧
      c.model.Referential := by
  constructor
  · have hrun : Ends (Pass.complete { mapping := .classPerTable }) clubs []
        ((Pass.complete { mapping := .classPerTable }).run clubs).2 :=
      Prod.ext (by decide +kernel) rfl
    exact ⟨_, hrun, completed_referential.1 _ _ _ _ (by decide) hrun⟩
  · obtain ⟨c, hc⟩ := Except.exists_ok (x := Compilation.compile {} Screens.noLibrary
      ["<m><entity name='A'><field name='id' type='autoid'/></entity></m>"] none)
      (by decide +kernel)
    exact ⟨c, hc, completed_referential.2 _ _ _ _ _ hc⟩

end EntitySchema
