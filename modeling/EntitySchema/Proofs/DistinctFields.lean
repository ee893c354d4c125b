import EntitySchema.Proofs.Completion
import EntitySchema.Proofs.RenamedFields

/-! Own fields of different names. Copies are made only when neither the entity nor the
copies have a field of the name, and what is added to an entity is checked; so the
own fields of an entity keep different names through the passes. -/

namespace EntitySchema

open Model (Evolves)
open Entity (SameOutline SameBearing)

variable {m m' : Model} {e e' : Entity} {f f' : Field} {name : String}

/-! ### Entities -/

namespace Entity

/-- No two own fields have the same name. -/
def DistinctFields (e : Entity) : Prop := (e.fields.map (·.name)).Nodup

instance : Decidable e.DistinctFields := inferInstanceAs (Decidable (List.Nodup _))

/-- Fields of different names, which the entity does not have. -/
def Fresh (e : Entity) (copies : List Field) : Prop :=
  (copies.map (·.name)).Nodup ∧ ∀ f ∈ copies, e.hasField f.name = false

theorem fresh_nil (e : Entity) : e.Fresh [] := ⟨.nil, by simp⟩

/-- A copy under a name that neither the entity nor the other copies have. -/
theorem Fresh.concat {copies : List Field} (h : e.Fresh copies) (hname : f'.name = name)
    (hnew : ¬(e.hasField name || copies.any (·.name = name)) = true) :
    e.Fresh (copies ++ [f']) := by
  subst hname
  rw [Bool.or_eq_true, not_or, List.any_eq_true] at hnew
  obtain ⟨howner, hcopies⟩ := hnew
  constructor
  · rw [List.map_append]
    refine h.1.append (by simp) ?_
    rw [List.disjoint_left]
    intro x hx hxf
    obtain ⟨g, hg, rfl⟩ := List.mem_map.mp hx
    exact hcopies ⟨g, hg, by simpa using hxf⟩
  · intro g hg
    rcases List.mem_append.mp hg with hg | hg
    · exact h.2 g hg
    · rw [List.mem_singleton.mp hg]
      simpa using howner

theorem Fresh.disjoint {copies : List Field} (h : e.Fresh copies) :
    (copies.map (·.name)).Disjoint (e.fields.map (·.name)) := by
  rw [List.disjoint_left]
  intro x hx hxe
  obtain ⟨f, hf, rfl⟩ := List.mem_map.mp hx
  have hnot := h.2 f hf
  rw [hasField_iff.mpr hxe] at hnot
  cases hnot

theorem Fresh.before {copies : List Field} (h : e.Fresh copies) (he : e.DistinctFields) :
    { e with fields := copies ++ e.fields }.DistinctFields := by
  unfold DistinctFields
  rw [List.map_append]
  exact h.1.append he h.disjoint

theorem Fresh.behind {copies : List Field} (h : e.Fresh copies) (he : e.DistinctFields) :
    { e with fields := e.fields ++ copies }.DistinctFields := by
  unfold DistinctFields
  rw [List.map_append]
  exact he.append h.1 fun x hx hy => h.disjoint hy hx

/-- A field that the entity does not have, behind its own. -/
theorem DistinctFields.concat (h : e.DistinctFields) (hname : f'.name = name)
    (hnew : e.hasField name = false) : { e with fields := e.fields ++ [f'] }.DistinctFields :=
  ((fresh_nil e).concat hname (by simp [hnew])).behind h

theorem addField_distinct (h : e.DistinctFields) (hadd : e.addField f = .ok e') :
    e'.DistinctFields := by
  obtain ⟨hnew, rfl⟩ := Link.addField_ok hadd
  exact h.concat rfl hnew

theorem addFields_distinct {fields : List Field} (h : e.DistinctFields)
    (hadd : fields.foldlM Entity.addField e = .ok e') : e'.DistinctFields :=
  Except.foldlM_ok (fun e : Entity => e.DistinctFields)
    (fun _ _ _ _ hstep he => addField_distinct he hstep) hadd h

/-- When names are different, taking the first field of a name takes all of them. -/
theorem ne_of_mem_eraseP {fields : List Field} (h : (fields.map (·.name)).Nodup) :
    ∀ f ∈ fields.eraseP (·.name = name), f.name ≠ name := by
  induction fields with
  | nil => simp
  | cons g rest ih =>
    obtain ⟨hg, hrest⟩ := List.nodup_cons.mp h
    intro f hf
    rw [List.eraseP_cons] at hf
    by_cases hname : g.name = name
    · rw [decide_eq_true hname, cond_true] at hf
      exact fun heq => hg (List.mem_map.mpr ⟨f, hf, heq.trans hname.symm⟩)
    · rw [decide_eq_false hname, cond_false] at hf
      rcases List.mem_cons.mp hf with rfl | hf
      · exact hname
      · exact ih hrest f hf

/-- When names are different, a name stands for one field. -/
theorem field?_iff {f : Field} (h : e.DistinctFields) :
    e.field? name = some f ↔ f ∈ e.fields ∧ f.name = name := by
  constructor
  · intro hf
    exact ⟨List.mem_of_find?_eq_some hf, by simpa using List.find?_some hf⟩
  · rintro ⟨hf, rfl⟩
    exact find?_of_mem h hf

theorem SameOutline.distinct (h : SameOutline e e') (he : e.DistinctFields) :
    e'.DistinctFields := by
  unfold DistinctFields
  rwa [h.fieldNames]

end Entity

open Entity (DistinctFields)

/-! ### Models -/

namespace Model

/-- The own fields of every entity have different names. -/
def DistinctFields (m : Model) : Prop := ∀ e ∈ m.entities, e.DistinctFields

instance : Decidable m.DistinctFields :=
  inferInstanceAs (Decidable (∀ e ∈ m.entities, e.DistinctFields))

/-- Entities of different names, each with own fields of different names. -/
structure Distinct (m : Model) : Prop where
  names : m.entityNames.Nodup
  fields : m.DistinctFields

theorem DistinctFields.evolves {R : Entity → Entity → Prop} (hm : m.DistinctFields)
    (h : Evolves R [] m m') (hR : ∀ e e', R e e' → e.DistinctFields → e'.DistinctFields) :
    m'.DistinctFields := All.evolves hm h hR

theorem DistinctFields.changeEntity {change : Entity → Entity} (hm : m.DistinctFields)
    (h : ∀ e, m.entity? name = some e → e.DistinctFields → (change e).DistinctFields) :
    (m.changeEntity name change).DistinctFields := All.changeEntity hm h

theorem DistinctFields.addEntity (hm : m.DistinctFields) (he : e.DistinctFields)
    (h : m.addEntity e = .ok m') : m'.DistinctFields := All.addEntity hm he h

end Model

/-! ### Passes along the hierarchy -/

namespace Hierarchy

theorem interfaceKeyCopies_fresh (m : Model) (e : Entity) : e.Fresh (interfaceKeyCopies m e) := by
  unfold interfaceKeyCopies
  refine List.foldlRecOn _ _ e.fresh_nil fun copies hcopies interface _ => ?_
  split
  · exact hcopies
  · split
    · exact hcopies
    · next hnew => exact hcopies.concat rfl hnew

theorem copyInterfaceKeys_distinct (hm : m.DistinctFields) :
    (copyInterfaceKeys name m).DistinctFields := by
  unfold copyInterfaceKeys
  split
  · exact hm
  · next e he =>
    refine hm.changeEntity fun e' he' hdistinct => ?_
    rw [he] at he'
    cases he'
    exact (interfaceKeyCopies_fresh m e).before hdistinct

theorem addParentKeyField_distinct {parent : String} (h : e.DistinctFields) :
    (addParentKeyField parent e f).DistinctFields := by
  unfold addParentKeyField
  split
  · exact h
  · next hnew => exact h.concat (rfl : _ = f.name) (by simpa using hnew)

theorem copyParentKey_distinct {parent : String} (hm : m.DistinctFields)
    (h : copyParentKey name parent m = .ok m') : m'.DistinctFields := by
  unfold copyParentKey at h
  split at h
  · cases h
  · cases h
    refine hm.changeEntity fun e _ hdistinct => ?_
    have hfields :
        ((m.primaryKeyFields parent).foldl (addParentKeyField parent) e).DistinctFields :=
      List.foldlRecOn _ _ hdistinct fun _ h _ _ => addParentKeyField_distinct h
    unfold leadWithKey
    split <;> exact hfields

theorem propagateKeys_distinct {u : Unit} (hm : m.DistinctFields)
    (h : Ends propagateKeys m u m') : m'.DistinctFields := by
  unfold propagateKeys at h
  obtain ⟨_, -, h⟩ := Pass.check_bind h
  obtain ⟨_, m₁, hinterfaces, h⟩ := h.get_bind.bind
  have hm₁ : m₁.DistinctFields := hinterfaces.forM_keeps (fun m => m.DistinctFields)
    (fun name _ m m' hstep hm => by
      obtain rfl := Pass.change_ends hstep
      exact copyInterfaceKeys_distinct hm) hm
  refine h.get_bind.forM_keeps (fun m => m.DistinctFields) (fun name _ m m' hstep => ?_) hm₁
  exact hstep.get_bind.forM_keeps (fun m => m.DistinctFields)
    fun parent _ m m' hstep hm => copyParentKey_distinct hm (Pass.step_ends hstep)

theorem Discriminated.distinct {warnings : List Warning} (h : Discriminated m e e' warnings)
    (he : e.DistinctFields) : e'.DistinctFields := by
  cases h with
  | apart _ => exact he
  | within _ =>
    have hrest : (e.removeField discriminatorName).DistinctFields :=
      (List.eraseP_sublist.map _).nodup he
    unfold leading
    split
    · have hnew : ¬(e.removeField discriminatorName).hasField discriminatorName = true := by
        intro hfound
        obtain ⟨f, hf, hname⟩ := List.mem_map.mp (Entity.hasField_iff.mp hfound)
        exact Entity.ne_of_mem_eraseP he f hf hname
      have hname : (rootDiscriminator m e.name).name = discriminatorName := rfl
      exact ((Entity.fresh_nil _).concat hname (by simpa using hnew)).before hrest
    · exact hrest

theorem addDiscriminators_distinct {warnings : List Warning} (hnodup : m.entityNames.Nodup)
    (hm : m.DistinctFields) (h : Ends addDiscriminators m warnings m') : m'.DistinctFields := by
  intro e' he'
  obtain ⟨e, he, -, hdisc⟩ := addDiscriminators_mem hnodup h he'
  exact hdisc.distinct (hm e he)

end Hierarchy

theorem Pass.Discriminates.distinct {options : Options} {warnings : List Warning}
    (h : Discriminates options m warnings m') (hnodup : m.entityNames.Nodup)
    (hm : m.DistinctFields) : m'.DistinctFields := by
  rcases h with ⟨-, h⟩ | ⟨-, -, rfl⟩
  · exact Hierarchy.addDiscriminators_distinct hnodup hm h
  · exact hm

/-! ### Fields of interfaces -/

namespace Link

variable {dialect : Dialect}

theorem move_fresh {moved moved' : Moved} (h : move dialect e moved f = .ok moved')
    (hmoved : e.Fresh moved.copies) : e.Fresh moved'.copies := by
  rcases move_cases h with ⟨rfl, -⟩ | ⟨_, _, _, -, hnew, -, rfl⟩
  · exact hmoved
  · exact hmoved.concat rfl hnew

theorem moveTo_distinct {taken taken' : List String} (hm : m.DistinctFields)
    (h : Ends (moveTo dialect taken name) m taken' m') : m'.DistinctFields := by
  rcases moveTo_cases h with ⟨rfl, -⟩ | ⟨e, moved, he, -, hmoved, -, rfl⟩
  · exact hm
  · have hfresh : e.Fresh moved.copies :=
      Except.foldlM_ok (fun moved : Moved => e.Fresh moved.copies) (fun _ _ _ _ => move_fresh)
        hmoved e.fresh_nil
    refine hm.changeEntity fun e' he' hdistinct => ?_
    rw [he] at he'
    cases he'
    exact hfresh.behind hdistinct

theorem relocate_distinct {u : Unit} (hm : m.DistinctFields) (h : Ends (relocate dialect) m u m') :
    m'.DistinctFields := by
  obtain ⟨_, moved, hloop, h⟩ := h.get_bind.bind
  obtain rfl := Pass.change_ends h
  have hmoved : moved.DistinctFields := hloop.foldlM_keeps (fun _ m => m.DistinctFields)
    (fun _ _ _ _ _ _ hstep hm => moveTo_distinct hm hstep) hm
  intro e' he'
  obtain ⟨e, he, rfl⟩ := List.mem_map.mp he'
  split
  · exact (List.filter_sublist.map _).nodup (hmoved e he)
  · exact hmoved e he

end Link

/-! ### Columns of link entities -/

theorem Link.withColumns_distinct {columns : List Field} (he : e.DistinctFields)
    (h : withColumns columns e = .ok e') : e'.DistinctFields := by
  obtain ⟨filled, hfilled, hkey⟩ := Except.bind_ok h
  have hfilled : filled.DistinctFields := Entity.addFields_distinct he hfilled
  rw [(addKey_ok hkey).2]
  exact hfilled

/-! ### Fields in lower case -/

namespace FieldCase

/-- A field may take a name that no other field has. -/
theorem renameField_distinct {old new : String} (hnew : e.hasField new = false)
    (he : e.DistinctFields) : (e.renameField old new).DistinctFields := by
  have hother : ∀ name ∈ e.fields.map (·.name), name ≠ new := by
    rintro _ hname rfl
    rw [Entity.hasField_iff.mpr hname] at hnew
    cases hnew
  unfold DistinctFields
  rw [Entity.renameField_eq he, Entity.fieldNames_mapNames]
  exact nodup_map_of_back (Entity.rename new old)
    (fun name hname => Entity.rename_rename (hother name hname)) he

theorem lowerNames_distinct : ∀ {names : List String} {e : Entity}, e.DistinctFields →
    lowerNames names e = (e', .ok ()) → e'.DistinctFields
  | [], e, he, h => by cases h; exact he
  | name :: rest, e, he, h => by
    unfold lowerNames at h
    dsimp only at h
    split at h
    · cases h
    · next hnew => exact lowerNames_distinct (renameField_distinct (by simpa using hnew) he) h

theorem lowerEntities_distinct : ∀ {es es' : List Entity}, (∀ e ∈ es, e.DistinctFields) →
    lowerEntities es = (es', .ok ()) → ∀ e ∈ es', e.DistinctFields
  | [], _, _, h => by cases h; simp
  | e :: rest, es', hall, h => by
    unfold lowerEntities at h
    split at h
    · cases h
    · next changed hchanged =>
      rcases hothers : lowerEntities rest with ⟨others, outcome⟩
      rw [hothers] at h
      cases h
      obtain ⟨he, hrest⟩ := List.forall_mem_cons.mp hall
      exact List.forall_mem_cons.mpr
        ⟨lowerNames_distinct he hchanged, lowerEntities_distinct hrest hothers⟩

theorem correct_distinct {u : Unit} (hm : m.DistinctFields) (h : Ends correct m u m') :
    m'.DistinctFields := by
  have h := h.get_bind
  rcases houtcome : lowerEntities m.entities with ⟨entities, outcome⟩
  rw [houtcome] at h
  obtain ⟨_, hok, h⟩ := h.set_bind.lift_bind
  rw [Except.mapError_ok hok] at houtcome
  obtain rfl := Pass.change_ends h
  intro e' he'
  obtain ⟨e, he, rfl⟩ := List.mem_map.mp he'
  have hdistinct := lowerEntities_distinct hm houtcome e he
  unfold DistinctFields at hdistinct ⊢
  rwa [List.map_map]

end FieldCase

/-! ### One after the other -/

namespace Pass

variable {options : Options} {dialect : Dialect}

theorem completeNames_distinct (hm : m.DistinctFields) (h : Ends (completeNames dialect) m () m') :
    m'.DistinctFields :=
  hm.evolves (Link.assignNames_outline (completeNames_steps h)) fun _ _ => SameOutline.distinct

theorem completeKeys_distinct {warnings : List Warning} (hnodup : m.entityNames.Nodup)
    (hm : m.DistinctFields) (h : Ends (completeKeys options) m warnings m') :
    m'.DistinctFields := by
  obtain ⟨m₁, m₂, m₃, hkeys, hdisc, -, hlabels, hrelocate⟩ := completeKeys_steps h
  have hnodup₁ := (Hierarchy.propagateKeys_ok hkeys).2.nodup Entity.isChange_gains hnodup
  have hm₁ := Hierarchy.propagateKeys_distinct hm hkeys
  have hm₂ := hdisc.distinct hnodup₁ hm₁
  have hm₃ := hm₂.evolves (Keys.assignLabels_relabels hlabels) fun e e' h he => by
    unfold DistinctFields
    rwa [h.fields]
  exact Link.relocate_distinct hm₃ hrelocate

theorem completeReferences_distinct (hm : m.DistinctFields)
    (h : Ends completeReferences m () m') : m'.DistinctFields := by
  obtain ⟨m₁, m₂, m₃, hfirst, hcase, hsecond, heq⟩ := completeReferences_steps h
  have hm₁ := hm.evolves (Reference.resolveAll_outline hfirst) fun _ _ => SameOutline.distinct
  have hm₃ := (FieldCase.correct_distinct hm₁ hcase).evolves (Reference.resolveAll_outline hsecond)
    fun _ _ => SameOutline.distinct
  intro e he
  exact hm₃ e (heq ▸ he)

end Pass

end EntitySchema
