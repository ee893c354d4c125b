import EntitySchema.Proofs.Completion
import EntitySchema.Proofs.Relocation

/-! Where fields come from. Up to the resolution of references, every field that an
entity gets is a copy of one that was there, or a discriminator. What all fields have
and copies keep, all fields have after these passes. -/

namespace EntitySchema

open Model (Evolves)
open Entity (SameOutline isChange_gains)

variable {m m' : Model} {kind : Field → Prop} {a name : String} {e : Entity} {f : Field}

/-- All own fields of all entities are of one kind. -/
def Model.AllFields (kind : Field → Prop) (m : Model) : Prop :=
  m.All fun e => ∀ f ∈ e.fields, kind f

namespace Model.AllFields

theorem visible (hm : m.AllFields kind) (hf : f ∈ m.allFields a) : kind f := by
  obtain ⟨e, he, hf⟩ := mem_allFields hf
  exact hm e (entity?_mem (mem_lineage.mp he).1) f hf

theorem outline (hkind : ∀ f f' : Field, f'.outline = f.outline → kind f → kind f')
    (hm : m.AllFields kind) (h : Evolves SameOutline [] m m') : m'.AllFields kind := by
  refine All.evolves hm h fun e e' h he f' hf' => ?_
  obtain ⟨f, hf, hsame⟩ := List.mem_map.mp (h.1 ▸ List.mem_map_of_mem hf')
  exact hkind f f' hsame.symm (he f hf)

end Model.AllFields

/-! ### Copies of keys -/

namespace Hierarchy

/-- A copy of a key of an interface or a parent is of the kind of the field that it
copies. -/
def CopiesKeep (kind : Field → Prop) : Prop :=
  ∀ f entity system, kind f → kind { f.referenceCopy entity .inheritedKey with system }

theorem interfaceKeyCopies_fields (hcopy : CopiesKeep kind) (hm : m.AllFields kind) :
    ∀ f ∈ interfaceKeyCopies m e, kind f := by
  unfold interfaceKeyCopies
  refine List.foldlRecOn _ _ (motive := fun copies => ∀ f ∈ copies, kind f) (by simp)
    fun copies hcopies interface _ => ?_
  split
  · exact hcopies
  · next f hf =>
    split
    · exact hcopies
    · intro g hg
      rcases List.mem_append.mp hg with hg | hg
      · exact hcopies g hg
      · obtain rfl := List.mem_singleton.mp hg
        unfold singleKeyField? at hf
        split at hf
        · exact hcopy f interface.name f.system (hm.visible (List.mem_of_find?_eq_some hf))
        · cases hf

theorem copyInterfaceKeys_fields (hcopy : CopiesKeep kind) (hm : m.AllFields kind) :
    (copyInterfaceKeys name m).AllFields kind := by
  unfold copyInterfaceKeys
  split
  · exact hm
  · exact Model.All.changeEntity hm fun e' _ he' f hf =>
      (List.mem_append.mp hf).elim (interfaceKeyCopies_fields hcopy hm f) (he' f)

theorem addParentKeyFields_fields {parent : String} {fields : List Field}
    (hcopy : CopiesKeep kind) (he : ∀ f ∈ e.fields, kind f) (hfields : ∀ f ∈ fields, kind f) :
    ∀ f ∈ (fields.foldl (addParentKeyField parent) e).fields, kind f := by
  refine List.foldlRecOn _ _ (motive := fun e : Entity => ∀ f ∈ e.fields, kind f) he
    fun e he f hf => ?_
  unfold addParentKeyField
  split
  · exact he
  · intro g hg
    rcases List.mem_append.mp hg with hg | hg
    · exact he g hg
    · exact List.mem_singleton.mp hg ▸ hcopy f parent true (hfields f hf)

theorem copyParentKey_fields {parent : String} (hcopy : CopiesKeep kind) (hm : m.AllFields kind)
    (h : copyParentKey name parent m = .ok m') : m'.AllFields kind := by
  unfold copyParentKey at h
  split at h
  · cases h
  · cases h
    refine Model.All.changeEntity hm fun e _ he => ?_
    have hkey : ∀ f ∈ m.primaryKeyFields parent, kind f :=
      fun f hf => hm.visible (Model.mem_primaryKeyFields hf).2
    have hfields : ∀ f ∈ ((m.primaryKeyFields parent).foldl (addParentKeyField parent) e).fields,
        kind f := addParentKeyFields_fields hcopy he hkey
    unfold leadWithKey
    split <;> exact hfields

theorem propagateKeys_fields {u : Unit} (hcopy : CopiesKeep kind) (hm : m.AllFields kind)
    (h : Ends propagateKeys m u m') : m'.AllFields kind := by
  unfold propagateKeys at h
  obtain ⟨_, -, h⟩ := Pass.check_bind h
  obtain ⟨_, m₁, hinterfaces, h⟩ := h.get_bind.bind
  have hm₁ : m₁.AllFields kind := hinterfaces.forM_keeps (fun m => m.AllFields kind)
    (fun name _ m m' hstep hm => by
      obtain rfl := Pass.change_ends hstep
      exact copyInterfaceKeys_fields hcopy hm) hm
  refine h.get_bind.forM_keeps (fun m => m.AllFields kind) (fun name _ m m' hstep => ?_) hm₁
  exact hstep.get_bind.forM_keeps (fun m => m.AllFields kind)
    fun parent _ m m' hstep hm => copyParentKey_fields hcopy hm (Pass.step_ends hstep)

/-! ### Discriminators -/

theorem Discriminated.all {warnings : List Warning} {e' : Entity}
    (hdisc : ∀ m root, kind (rootDiscriminator m root)) (h : Discriminated m e e' warnings)
    (he : ∀ f ∈ e.fields, kind f) : ∀ f ∈ e'.fields, kind f := by
  cases h with
  | apart _ => exact he
  | within _ =>
    intro f hf
    rcases List.mem_append.mp hf with hf | hf
    · unfold leading at hf
      split at hf
      · exact List.mem_singleton.mp hf ▸ hdisc m e.name
      · cases hf
    · exact he f (List.mem_of_mem_eraseP hf)

end Hierarchy

theorem Pass.Discriminates.fields {options : Options} {warnings : List Warning}
    (hnodup : m.entityNames.Nodup) (hdisc : ∀ m root, kind (Hierarchy.rootDiscriminator m root))
    (hm : m.AllFields kind) (h : Discriminates options m warnings m') : m'.AllFields kind := by
  rcases h with ⟨-, h⟩ | ⟨-, -, rfl⟩
  · intro e' he'
    obtain ⟨e, he, -, hchange⟩ := Hierarchy.addDiscriminators_mem hnodup h he'
    exact hchange.all hdisc (hm e he)
  · exact hm

/-! ### Fields that move -/

namespace Link

variable {dialect : Dialect}

theorem relocate_fields {u : Unit}
    (hmove : ∀ f target link, kind f →
      kind { f with type := .mref target link, origin := .interfaceMref })
    (hm : m.AllFields kind) (h : Ends (relocate dialect) m u m') : m'.AllFields kind := by
  obtain ⟨_, moved, hloop, h⟩ := h.get_bind.bind
  obtain rfl := Pass.change_ends h
  have hmoved : moved.AllFields kind := hloop.foldlM_keeps (fun _ m => m.AllFields kind)
    (fun name _ _ _ m m' hstep hm => by
      rcases moveTo_cases hstep with ⟨rfl, -⟩ | ⟨_, _, _, _, hmoved, _, rfl⟩
      · exact hm
      · refine Model.All.changeEntity hm fun e _ he f' hf' => ?_
        rcases List.mem_append.mp hf' with hf' | hf'
        · exact he f' hf'
        · obtain ⟨i, hi, f, hf, target, link, rfl⟩ := moveAll_moved hmoved f' hf'
          exact hmove f target link (hm i hi f hf)) hm
  intro e' he' f hf
  obtain ⟨e, he, -, hsubset⟩ := stripInterfaces_mem he'
  exact hmoved e he f (hsubset hf)

end Link

/-! ### One after the other -/

namespace Pass

theorem completeKeys_fields {options : Options} {warnings : List Warning}
    (hnodup : m.entityNames.Nodup) (hcopy : Hierarchy.CopiesKeep kind)
    (hdisc : ∀ m root, kind (Hierarchy.rootDiscriminator m root))
    (hmove : ∀ f target link, kind f →
      kind { f with type := .mref target link, origin := .interfaceMref })
    (hm : m.AllFields kind) (h : Ends (completeKeys options) m warnings m') :
    m'.AllFields kind := by
  obtain ⟨m₁, m₂, m₃, hkeys, hdiscriminates, -, hlabels, hrelocate⟩ := completeKeys_steps h
  have hnodup₁ := (Hierarchy.propagateKeys_ok hkeys).2.nodup isChange_gains hnodup
  have hm₂ := hdiscriminates.fields hnodup₁ hdisc (Hierarchy.propagateKeys_fields hcopy hm hkeys)
  have hm₃ : m₃.AllFields kind := Model.All.evolves hm₂ (Keys.assignLabels_relabels hlabels)
    fun e e' h (he : ∀ f ∈ e.fields, kind f) => by rwa [h.fields]
  exact Link.relocate_fields hmove hm₃ hrelocate

/-- Every field is one in lower case of a field before. -/
theorem completeReferences_fields {kind' : Field → Prop}
    (houtline : ∀ f f' : Field, f'.outline = f.outline → kind f → kind f')
    (hlower : ∀ f f' : Field, f'.outline = (FieldCase.lowerField f).outline → kind f → kind' f')
    (hm : m.AllFields kind) (h : Ends completeReferences m () m') : m'.AllFields kind' := by
  obtain ⟨m₁, m₂, m₃, hfirst, hcase, hsecond, heq⟩ := completeReferences_steps h
  have hm₁ := hm.outline houtline (Reference.resolveAll_outline hfirst)
  have hsecond := Reference.resolveAll_outline hsecond
  intro e he f' hf'
  obtain ⟨e₂, he₂, hsame⟩ := (hsecond.mem (heq ▸ he)).resolve_right (by simp)
  rw [FieldCase.correct_ok hcase] at he₂
  obtain ⟨e₁, he₁, rfl⟩ := List.mem_map.mp he₂
  obtain ⟨f₂, hf₂, hout⟩ := List.mem_map.mp (hsame.1 ▸ List.mem_map_of_mem hf')
  obtain ⟨f₁, hf₁, rfl⟩ := List.mem_map.mp hf₂
  exact hlower f₁ f' (hout.symm.trans (FieldCase.outline_corrected f₁)) (hm₁ e₁ he₁ f₁ hf₁)

/-- The hierarchy that was checked is the one in which references are completed. -/
theorem completeReferences_hierarchy {options : Options} {m₁ m₂ : Model}
    {warnings : List Warning} (hnodup : m.entityNames.Nodup)
    (hkeys : Ends (completeKeys options) m warnings m₁)
    (hreferences : Ends completeReferences m₁ () m₂) : m₂.Layered ∧ m₂.Closed := by
  obtain ⟨_, _, _, hpropagate, -⟩ := completeKeys_steps hkeys
  obtain ⟨hcheck, -⟩ := Hierarchy.propagateKeys_ok hpropagate
  have hstanding := (completeKeys_standing hnodup hkeys).trans_nil Entity.isChange_sameStanding
    (completeReferences_standing hreferences)
  exact ⟨(Model.layered_of_check hcheck).standing hstanding,
    (Model.closed_of_check hcheck).standing hstanding⟩

end Pass

end EntitySchema
