import EntitySchema.Proofs.Completion
import EntitySchema.Proofs.Relocation

/-! The labels that entities show. They are visible when they are assigned, and stay so
when fields of interfaces move to the entities with tables; but when fields are
put in lower case, only labels that name fields of the entity itself follow. -/

namespace EntitySchema

open Relation (ReflTransGen TransGen)
open Model (Evolves)
open Entity (Gains SameOutline SameStanding Grows Relabels isChange_gains isChange_sameOutline
  isChange_sameStanding isChange_relabels)

variable {m m' : Model} {a name label : String} {e : Entity}

/-- Every entity with a table sees what it shows. -/
def Model.ShowsVisible (m : Model) : Prop :=
  ∀ e ∈ m.entities, e.isAbstract = false → ∀ labels, e.labels = some labels →
    ∀ label ∈ labels, m.Sees e.name label

/-! ### When they are assigned -/

namespace Keys

theorem checkFields_ok {fields : List Field} {u : Unit} (h : checkFields e fields = .ok u)
    {key : Key} (hkey : key ∈ e.keys) {field : String} (hfield : field ∈ key.fields) :
    ∃ f ∈ fields, f.name = field := by
  have hmem : field ∈ e.keys.flatMap (·.fields) := List.mem_flatMap.mpr ⟨key, hkey, hfield⟩
  have hstep := Except.forM_ok h field hmem
  split at hstep
  · next hany => simpa using hany
  · cases hstep

/-- Keys name fields that are visible wherever the keys are. -/
theorem sees_of_keyed (hm : m.Layered) (h : check m = .ok ()) {field : String}
    (hkeyed : m.Keyed a field) : m.Sees a field := by
  obtain ⟨e, he, key, hkey, hfield⟩ := Model.keyed_iff.mp hkeyed
  obtain ⟨he, hae⟩ := Model.mem_lineage.mp he
  have hcheck := Except.forM_ok h e (Model.entity?_mem he)
  obtain ⟨_, hfields, -⟩ := Except.bind_ok hcheck
  exact Model.Sees.inherits hm hae (checkFields_ok hfields hkey hfield)

theorem mem_defaultLabels {keys : List Key} (h : label ∈ defaultLabels keys) :
    ∃ key ∈ keys, label ∈ key.fields := by
  unfold defaultLabels at h
  split at h
  · exact ⟨_, by simp, h⟩
  · exact ⟨_, by simp, h⟩
  · cases h

/-- Labels that are assigned are visible, and so are those that were declared. -/
theorem labelsFor_ok (hm : m.Layered) (hcheck : check m = .ok ()) {found : Option (List String)}
    (h : labelsFor m e = .ok found) (hconcrete : e.isAbstract = false) {labels : List String}
    (hlabels : found = some labels ∨ e.labels = some labels) :
    ∀ label ∈ labels, m.Sees e.name label := by
  unfold labelsFor at h
  split at h
  · rw [hconcrete] at h
    cases h
  · split at h
    · next hnone =>
      cases h
      rw [hnone] at hlabels
      obtain hlabels := hlabels.resolve_right (by simp)
      cases hlabels
      exact fun label hlabel => sees_of_keyed hm hcheck (mem_defaultLabels hlabel)
    · next declared hdeclared =>
      obtain ⟨_, hvisible, h⟩ := Except.bind_ok h
      cases h
      obtain hlabels := hlabels.resolve_left (by simp)
      rw [hdeclared] at hlabels
      cases hlabels
      intro label hlabel
      have hstep := Except.forM_ok hvisible label hlabel
      split at hstep
      · next hsome => exact Model.sees_iff_visibleField?.mpr (Option.isSome_iff_exists.mp hsome)
      · cases hstep

theorem assignLabels_visible (hnodup : m.entityNames.Nodup) (hm : m.Layered)
    (hcheck : check m = .ok ()) (h : assignLabels m = .ok m') : m'.ShowsVisible := by
  obtain ⟨hfound, hlabelled⟩ := assignLabels_ok h
  have hstanding : Evolves SameStanding [] m m' := hlabelled.mono fun _ _ h => h.1.sameStanding
  intro e' he' hconcrete labels hlabels label hlabel
  obtain ⟨e, he, hrelabels, hfrom⟩ := (hlabelled.mem he').resolve_right (by simp)
  have hconcrete : e.isAbstract = false := hrelabels.sameStanding.isAbstract ▸ hconcrete
  have hsees : m.Sees e.name label := by
    rcases hfrom with hsame | ⟨x, hx, hname, assigned, hassigned, hsame⟩
    · obtain ⟨found, hfound⟩ := hfound e he
      exact labelsFor_ok hm hcheck hfound hconcrete (.inr (hsame ▸ hlabels)) label hlabel
    · obtain rfl := List.inj_on_of_nodup_map hnodup hx he hname
      rw [hsame] at hlabels
      cases hlabels
      exact labelsFor_ok hm hcheck hassigned hconcrete (.inl rfl) label hlabel
  rw [hrelabels.sameStanding.name]
  refine Model.Sees.carry id hstanding (fun {name x x'} hx hx' f hf => ?_) hsees
  obtain ⟨x'', hx'', hsame⟩ := hlabelled.entity? (isChange_labelled m) hx
  rw [hx'] at hx''
  cases hx''
  exact ⟨f, hsame.1.fields ▸ hf, rfl⟩

end Keys

/-! ### When fields move -/

namespace Link

variable {dialect : Dialect}

theorem relocate_visible {u : Unit} (hnodup : m.entityNames.Nodup) (hlayered : m.Layered)
    (hm : m.ShowsVisible) (h : Ends (relocate dialect) m u m') : m'.ShowsVisible := by
  obtain ⟨moved, hgains, heq⟩ := relocate_ok h
  intro e' he' hconcrete labels hlabels label hlabel
  rw [heq] at he'
  obtain ⟨x, hx, hstrips⟩ := List.mem_map.mp he'
  obtain ⟨e, he, front, back, keys, rfl⟩ := (hgains.mem hx).resolve_right (by simp)
  obtain ⟨hname, habstract, hsame⟩ : e'.name = e.name ∧ e'.isAbstract = e.isAbstract ∧
      e'.labels = e.labels := by
    rw [← hstrips]
    split <;> exact ⟨rfl, rfl, rfl⟩
  have hconcrete : e.isAbstract = false := habstract ▸ hconcrete
  rw [hname]
  exact relocate_sees hlayered h (Model.entity?_of_mem hnodup he) hconcrete
    (hm e he hconcrete labels (hsame ▸ hlabels) label hlabel)

end Link

/-! ### From pass to pass -/

/-- Every entity with a table sees what it shows, as it is written or in lower case. -/
def Model.ShowsFolded (m : Model) : Prop :=
  ∀ e ∈ m.entities, e.isAbstract = false → ∀ labels, e.labels = some labels →
    ∀ label ∈ labels, m.Sees e.name label ∨ m.Sees e.name (Text.lower label)

theorem Model.ShowsVisible.grows (hm : m.ShowsVisible) (h : Evolves Grows [] m m') :
    m'.ShowsVisible := by
  intro e' he' hconcrete labels hlabels label hlabel
  obtain ⟨e, he, hgrows⟩ := (h.mem he').resolve_right (by simp)
  rw [hgrows.isAbstract] at hconcrete
  rw [hgrows.labels] at hlabels
  rw [hgrows.name]
  exact (hm e he hconcrete labels hlabels label hlabel).grows h

/-- Entities may be added that show nothing. -/
theorem Model.ShowsFolded.grows {added : List String} (hm : m.ShowsFolded)
    (h : Evolves Grows added m m') (hnew : ∀ e ∈ m'.entities, e.name ∈ added → e.labels = none) :
    m'.ShowsFolded := by
  intro e' he' hconcrete labels hlabels label hlabel
  rcases h.mem he' with ⟨e, he, hgrows⟩ | hadded
  · rw [hgrows.isAbstract] at hconcrete
    rw [hgrows.labels] at hlabels
    rw [hgrows.name]
    exact (hm e he hconcrete labels hlabels label hlabel).imp (·.grows h) (·.grows h)
  · rw [hnew e' he' hadded] at hlabels
    cases hlabels

/-- A field is seen under its name in lower case, and under no other. -/
theorem FieldCase.correct_sees_iff {u : Unit} (h : Ends FieldCase.correct m u m') :
    m'.Sees a label ↔ ∃ field, m.Sees a field ∧ label = Text.lower field := by
  have hstanding := correct_standing h
  constructor
  · intro hsees
    obtain ⟨e', he', f', hf', rfl⟩ := Model.sees_iff.mp hsees
    obtain ⟨e, he, hfound, -⟩ :=
      Model.mem_lineage_change_back isChange_sameStanding (fun _ _ => id) hstanding he'
    have hcorrected := correct_entity? h hfound
    rw [(Model.mem_lineage.mp he').1] at hcorrected
    cases hcorrected
    obtain ⟨f, hf, rfl⟩ := List.mem_map.mp hf'
    exact ⟨f.name, Model.sees_iff.mpr ⟨e, he, f, hf, rfl⟩, rfl⟩
  · rintro ⟨field, hsees, rfl⟩
    refine hsees.carry Text.lower hstanding fun {name x x'} hx hx' f hf => ?_
    rw [correct_entity? h hx] at hx'
    cases hx'
    exact ⟨corrected f, List.mem_map_of_mem hf, rfl⟩

theorem FieldCase.correct_folded {u : Unit} (hm : m.ShowsVisible)
    (h : Ends FieldCase.correct m u m') : m'.ShowsFolded := by
  have hlower : ∀ {a label}, m.Sees a label → m'.Sees a (Text.lower label) :=
    fun hsees => (correct_sees_iff h).mpr ⟨_, hsees, rfl⟩
  intro e' he' hconcrete labels' hlabels' label' hlabel'
  obtain rfl := correct_ok h
  obtain ⟨e, he, rfl⟩ := List.mem_map.mp he'
  obtain ⟨labels, hlabels, rfl⟩ := Option.map_eq_some_iff.mp hlabels'
  obtain ⟨label, hlabel, rfl⟩ := List.mem_map.mp hlabel'
  have hsees := hlower (hm e he hconcrete labels hlabels label hlabel)
  unfold follow
  split
  · exact .inl hsees
  · exact .inr hsees

namespace Pass

theorem completeKeys_visible {options : Options} {warnings : List Warning}
    (hnodup : m.entityNames.Nodup) (h : Ends (completeKeys options) m warnings m') :
    m'.ShowsVisible := by
  obtain ⟨m₁, m₂, m₃, hkeys, hdisc, hcheck, hlabels, hrelocate⟩ := completeKeys_steps h
  obtain ⟨hhierarchy, hgains⟩ := Hierarchy.propagateKeys_ok hkeys
  have hnodup₁ := hgains.nodup isChange_gains hnodup
  have hstanding₁ : Evolves SameStanding [] m m₁ := hgains.mono fun _ _ h => h.sameStanding
  have hstanding₂ := hdisc.standing hnodup₁
  have hnodup₂ := hstanding₂.nodup isChange_sameStanding hnodup₁
  have hlayered := ((Model.layered_of_check hhierarchy).standing hstanding₁).standing hstanding₂
  have hrelabels := Keys.assignLabels_relabels hlabels
  have hnodup₃ := hrelabels.nodup isChange_relabels hnodup₂
  have hvisible := Keys.assignLabels_visible hnodup₂ hlayered hcheck hlabels
  have hlayered₃ := hlayered.standing (hrelabels.mono fun _ _ h => h.sameStanding)
  exact Link.relocate_visible hnodup₃ hlayered₃ hvisible hrelocate

theorem completeReferences_folded (hm : m.ShowsVisible)
    (h : Ends completeReferences m () m') : m'.ShowsFolded := by
  obtain ⟨m₁, m₂, m₃, hfirst, hcase, hsecond, heq⟩ := completeReferences_steps h
  have hfirst := Reference.resolveAll_outline hfirst
  have hm₁ := hm.grows (hfirst.mono fun _ _ h => h.grows)
  have hm₂ := FieldCase.correct_folded hm₁ hcase
  have hsecond : Evolves Grows [] m₂ m₃ :=
    (Reference.resolveAll_outline hsecond).mono fun _ _ h => h.grows
  have hsame : Evolves Grows [] m₂ m' :=
    hsecond.trans_nil Entity.isChange_grows (.of_eq Entity.isChange_grows heq)
  exact hm₂.grows hsame (by simp)

end Pass

end EntitySchema
