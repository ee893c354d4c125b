import EntitySchema.Proofs.Growth
import EntitySchema.Reference

/-! What resolution makes sure of. A resolved reference points at a field that is
visible on its entity and named by one of its keys, and each of its labels is one
that the entity shows. Resolving changes nothing but what references point at. -/

namespace EntitySchema.Reference

open Model (Evolves)
open Entity (SameOutline isChange_sameOutline)

variable {m m' : Model} {owner : Entity} {f f' : Field} {t : Target}

/-- A path of an entity of the model and a field that is visible on it. -/
def IsPath (m : Model) (label : String) : Prop :=
  ∃ e ∈ m.entities, ∃ field, m.Sees e.name field ∧ label = s!"{e.name}.{field}"

theorem isPath_iff {label : String} : IsPath m label ↔
    ∃ e ∈ m.entities, ∃ f ∈ m.allFields e.name, label = s!"{e.name}.{f.name}" := by
  constructor
  · rintro ⟨e, he, _, ⟨f, hf, rfl⟩, hlabel⟩
    exact ⟨e, he, f, hf, hlabel⟩
  · rintro ⟨e, he, f, hf, hlabel⟩
    exact ⟨e, he, f.name, ⟨f, hf, rfl⟩, hlabel⟩

instance {label : String} : Decidable (IsPath m label) := decidable_of_iff _ isPath_iff.symm

/-- The label can be shown for the entity. -/
def IsShown (m : Model) (entity label : String) : Prop :=
  IsPath m label ∨ m.Sees entity label ∨ label ∈ candidateLabels m entity

instance {entity label : String} : Decidable (IsShown m entity label) :=
  inferInstanceAs (Decidable (_ ∨ _ ∨ _))

/-! ### Labels -/

theorem sees_of_visibleFieldIgnoringCase? {entity name : String}
    (h : m.visibleFieldIgnoringCase? entity name = some f) : m.Sees entity f.name := by
  unfold Model.visibleFieldIgnoringCase? at h
  rcases Option.or_eq_some_iff.mp h with h | ⟨_, h⟩
  · exact ⟨f, List.mem_of_find?_eq_some h, rfl⟩
  · exact ⟨f, List.mem_of_find?_eq_some h, rfl⟩

theorem mem_of_entityIgnoringCase? {name : String} {e : Entity}
    (h : m.entityIgnoringCase? name = some e) : e ∈ m.entities := by
  unfold Model.entityIgnoringCase? at h
  rcases Option.or_eq_some_iff.mp h with h | ⟨_, h⟩
  · exact Model.entity?_mem h
  · exact List.mem_of_find?_eq_some h

theorem isPath_of_findPath? {path : String} {e : Entity} (h : m.findPath? path = some (e, f)) :
    IsPath m s!"{e.name}.{f.name}" := by
  unfold Model.findPath? at h
  obtain ⟨⟨entityName, fieldName⟩, _, h⟩ := Option.bind_eq_some_iff.mp h
  obtain ⟨e', he', h⟩ := Option.bind_eq_some_iff.mp h
  obtain ⟨f', hf', h⟩ := Option.bind_eq_some_iff.mp h
  cases h
  exact ⟨e, mem_of_entityIgnoringCase? he', f.name, sees_of_visibleFieldIgnoringCase? hf', rfl⟩

/-- A label that is found can be shown for the target. -/
theorem resolveLabel_shown {context key label label' : String} {target : Entity}
    (hkey : m.Sees target.name key) (h : resolveLabel m context target key label = .ok label') :
    IsShown m target.name label' := by
  unfold resolveLabel at h
  split at h
  · split at h
    · next hpath => cases h; exact .inl (isPath_of_findPath? hpath)
    · cases h
  split at h
  · next heq => cases h; exact .inr (.inl (heq ▸ hkey))
  split at h
  · next hfield => cases h; exact .inr (.inl (sees_of_visibleFieldIgnoringCase? hfield))
  dsimp only at h
  split at h
  · next hmem => cases h; exact .inr (.inr (by simpa using hmem))
  split at h
  · cases h
  split at h
  · next single hsingle =>
    cases h
    have hmem : label' ∈ (candidateLabels m target.name).filter (suits label) := by simp [hsingle]
    exact .inr (.inr (List.mem_of_mem_filter hmem))
  · cases h

/-! ### Targets -/

theorem targetEntity_ok {context name : String} {e : Entity}
    (h : targetEntity m context name = .ok e) : m.entity? name = some e := by
  unfold targetEntity at h
  split at h
  · next he => cases h; exact he
  · cases h

/-- The field that a reference refers to is visible and in a key. -/
theorem targetField_ok {context name : String} {target : Entity}
    (h : targetField m context target name = .ok f) :
    m.Sees target.name f.name ∧ m.Keyed target.name f.name := by
  unfold targetField at h
  dsimp only at h
  split at h
  · cases h
  · next g hg =>
    split at h
    · cases h
    split at h
    · cases h
    · next hkey _ =>
      cases h
      refine ⟨sees_of_visibleFieldIgnoringCase? hg, ?_⟩
      simpa [Model.Keyed] using hkey

/-- Where a resolved reference points, and what it shows. -/
structure Resolved (m : Model) (origin : Origin) (t : Target) (e : Entity) (key : String) :
    Prop where
  entity : m.entity? t.entity = some e
  field : t.field = some key
  sees : m.Sees t.entity key
  keyed : m.Keyed t.entity key
  /-- Only copies of keys point at entities without a table. -/
  concrete : e.isAbstract = true → origin = .inheritedKey
  shown : ∀ label ∈ t.labels, IsShown m t.entity label

theorem resolve_ok (h : resolve m owner f = .ok t) :
    ∃ e key, Resolved m f.origin t e key := by
  unfold resolve at h
  cases hd : f.target? with
  | none => rw [hd] at h; cases h
  | some declared =>
    rw [hd] at h
    obtain ⟨_, h⟩ := Except.guard_ok h
    obtain ⟨e, he, h⟩ := Except.bind_ok h
    obtain ⟨habstract, h⟩ := Except.guard_ok h
    obtain ⟨name, _, h⟩ := Except.bind_ok h
    obtain ⟨g, hg, h⟩ := Except.bind_ok h
    obtain ⟨hsees, hkeyed⟩ := targetField_ok hg
    have he := Model.entity?_self (targetEntity_ok he)
    have hconcrete : e.isAbstract = true → f.origin = .inheritedKey := by simpa using habstract
    dsimp only at h
    split at h
    · cases h
      exact ⟨e, g.name, he, rfl, hsees, hkeyed, hconcrete, fun label hl => by
        rw [List.mem_singleton.mp hl]; exact .inr (.inl hsees)⟩
    · obtain ⟨labels, hlabels, h⟩ := Except.bind_ok h
      cases h
      refine ⟨e, g.name, he, rfl, hsees, hkeyed, hconcrete, fun label hl => ?_⟩
      obtain ⟨_, _, hlabel⟩ := exists_of_forall₂_right (Except.mapM_ok hlabels) hl
      exact resolveLabel_shown hsees hlabel

/-- A reference keeps the entity that it points at. -/
theorem resolve_entity (h : resolve m owner f = .ok t) :
    ∃ declared, f.target? = some declared ∧ t.entity = declared.entity := by
  unfold resolve at h
  cases hd : f.target? with
  | none => rw [hd] at h; cases h
  | some declared =>
    rw [hd] at h
    obtain ⟨_, h⟩ := Except.guard_ok h
    obtain ⟨e, he, h⟩ := Except.bind_ok h
    obtain ⟨_, h⟩ := Except.guard_ok h
    obtain ⟨_, _, h⟩ := Except.bind_ok h
    obtain ⟨_, _, h⟩ := Except.bind_ok h
    refine ⟨declared, rfl, ?_⟩
    rw [← Model.entity?_name (targetEntity_ok he)]
    dsimp only at h
    split at h
    · cases h
      rfl
    · obtain ⟨_, _, h⟩ := Except.bind_ok h
      cases h
      rfl

/-- A resolved field is the field with another target, or no reference. -/
theorem resolveField_ok (h : resolveField m owner f = .ok f') :
    f'.outline = f.outline ∧ ∀ t, f'.target? = some t → resolve m owner f = .ok t := by
  unfold resolveField at h
  split at h
  · next href =>
    obtain ⟨target, htarget, h⟩ := Except.bind_ok h
    cases h
    refine ⟨Field.outline_withTarget f target, fun t ht => ?_⟩
    rw [htarget]
    rcases f with ⟨_, _, type⟩
    cases type <;> simp_all [Field.target?, FieldType.target?, FieldType.withTarget]
  · next href =>
    cases h
    refine ⟨rfl, fun t ht => ?_⟩
    rcases f with ⟨_, _, type⟩
    cases type <;> simp_all [Field.target?, FieldType.target?, FieldType.isReference]

/-! ### Entities -/

/-- One entity is resolved, in the model before. -/
theorem resolveEntity_ok {name : String} (h : resolveEntity name m = .ok m') :
    Evolves SameOutline [] m m' := by
  refine Evolves.tryEntity isChange_sameOutline h fun e e' _ he => ?_
  obtain ⟨fields, hfields, he⟩ := Except.bind_ok he
  cases he
  exact SameOutline.of_forall₂ ((Except.mapM_ok (Except.mapError_ok hfields)).imp
    fun _ _ h => (resolveField_ok h).1)

theorem resolveEntities_outline {names : List String} {u : Unit}
    (h : Ends (resolveEntities names) m u m') : Evolves SameOutline [] m m' :=
  .forM isChange_sameOutline (fun _ _ _ _ hstep => resolveEntity_ok (Pass.step_ends hstep)) h

theorem resolveAll_outline {u : Unit} (h : Ends resolveAll m u m') : Evolves SameOutline [] m m' :=
  resolveEntities_outline (Ends.get_bind h)

/-- What every field has when it is resolved, and keeps while others are resolved. -/
structure Settles (P : Model → Field → Prop) : Prop where
  resolved : ∀ {m owner f f'}, resolveField m owner f = .ok f' → P m f'
  kept : ∀ {m m' f}, Evolves SameOutline [] m m' → P m f → P m' f

/-- It holds in the end of all fields, if it held of those that are not resolved. -/
theorem resolveEntities_holds {P : Model → Field → Prop} (hP : Settles P) {u : Unit} :
    ∀ {names : List String} {m : Model}, m.entityNames.Nodup →
      (∀ e ∈ m.entities, e.name ∉ names → ∀ f ∈ e.fields, P m f) →
      Ends (resolveEntities names) m u m' → ∀ e ∈ m'.entities, ∀ f ∈ e.fields, P m' f
  | [], m, _, hall, h => by cases h; exact fun e he => hall e he (by simp)
  | name :: rest, m, hnodup, hall, h => by
    obtain ⟨m₁, hstep, h⟩ := Pass.step_bind h
    have hout := resolveEntity_ok hstep
    refine resolveEntities_holds hP (hout.nodup isChange_sameOutline hnodup) ?_ h
    intro e₁ he₁ hname f hf
    -- references are resolved in the model before the step, but hold after it as well
    rcases Model.mem_tryEntity hnodup hstep he₁ with ⟨e, _, hresolved⟩ | ⟨he, hne⟩
    · obtain ⟨fields, hfields, hresolved⟩ := Except.bind_ok hresolved
      cases hresolved
      obtain ⟨_, _, hf⟩ := exists_of_forall₂_right (Except.mapM_ok (Except.mapError_ok hfields)) hf
      exact hP.kept hout (hP.resolved hf)
    · exact hP.kept hout (hall e₁ he (by simp [hne, hname]) f hf)

theorem resolveAll_holds {P : Model → Field → Prop} (hP : Settles P) {u : Unit}
    (hnodup : m.entityNames.Nodup) (h : Ends resolveAll m u m') :
    ∀ e ∈ m'.entities, ∀ f ∈ e.fields, P m' f :=
  resolveEntities_holds hP hnodup (fun _ he hname => absurd (List.mem_map_of_mem he) hname)
    h.get_bind

end EntitySchema.Reference
