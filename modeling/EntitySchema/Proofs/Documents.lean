import EntitySchema.Compilation
import EntitySchema.Proofs.SoundEntities

/-! From documents to a completed model. Entities join a draft one at a time, and only
under new names, and so do fields, keys and indices an entity that is read; so the
model that the passes begin with has no two entities of the same name, and each of
them is sound. The screens that are read in the end leave the entities alone. -/

namespace EntitySchema

open Model (Evolves)
open Entity (isChange_eq)

variable {d d' : Draft} {u : Unit}

namespace Entity

/-- The indices of the entity name its own fields. -/
def OwnsIndices (e : Entity) : Prop :=
  ∀ index ∈ e.indices, ∀ name ∈ index.fields, e.hasField name = true

/-- An entity as it is read: sound, with fields that are declared, or copied for a key, and
indices over them. -/
structure AsRead (e : Entity) : Prop extends Sound e where
  origins : ∀ f ∈ e.fields, f.origin = .declared ∨ f.origin = .constraintCopy
  ownsIndices : e.OwnsIndices

variable {e e' : Entity} {f : Field} {key : Key}

theorem OwnsIndices.of_grows (h : e.OwnsIndices) (hindices : e'.indices = e.indices)
    (hfields : e.fields ⊆ e'.fields) : e'.OwnsIndices := fun index hindex name hname =>
  hasField_iff.mpr (List.map_subset _ hfields
    (hasField_iff.mp (h index (hindices ▸ hindex) name hname)))

theorem AsRead.of_same (h : e.AsRead) (hfields : e'.fields = e.fields) (hkeys : e'.keys = e.keys)
    (hindices : e'.indices = e.indices) : e'.AsRead where
  toTidy := h.toTidy.of_same hindices hkeys
  fields := by
    unfold DistinctFields
    rw [hfields]
    exact h.fields
  origins := hfields ▸ h.origins
  ownsIndices := h.ownsIndices.of_grows hindices (hfields ▸ List.Subset.refl _)

theorem AsRead.addField (h : e.AsRead) (hf : f.origin = .declared ∨ f.origin = .constraintCopy)
    (hadd : e.addField f = .ok e') : e'.AsRead := by
  have hdistinct := addField_distinct h.fields hadd
  obtain ⟨_, rfl⟩ := Link.addField_ok hadd
  refine ⟨⟨h.toTidy.of_same rfl rfl, hdistinct⟩, fun g hg => ?_,
    h.ownsIndices.of_grows rfl (List.subset_append_left _ _)⟩
  rcases List.mem_append.mp hg with hg | hg
  · exact h.origins g hg
  · exact List.mem_singleton.mp hg ▸ hf

theorem AsRead.addKey (h : e.AsRead) (hkey : key.fields ≠ []) (hadd : e.addKey key = .ok e') :
    e'.AsRead := by
  have htidy := addKey_tidy h.toTidy hkey hadd
  obtain ⟨_, rfl⟩ := Link.addKey_ok hadd
  exact ⟨⟨htidy, h.fields⟩, h.origins, h.ownsIndices⟩

/-- No second index is added under a name. -/
theorem AsRead.addIndex {index : Index} (h : e.AsRead)
    (hindex : ∀ name ∈ index.fields, e.hasField name = true) : (e.addIndex index).AsRead := by
  unfold Entity.addIndex
  split
  · exact h
  · next hnew =>
    have hnew : ∀ i ∈ e.indices, i.name ≠ index.name := by simpa [hasIndex] using hnew
    refine ⟨⟨⟨?_, h.keys⟩, h.fields⟩, h.origins, fun i hi name hname => ?_⟩
    · rw [List.map_append]
      refine h.indices.append (by simp) fun name hname hnamed => ?_
      obtain ⟨i, hi, rfl⟩ := List.mem_map.mp hname
      exact hnew i hi (List.mem_singleton.mp hnamed)
    · rcases List.mem_append.mp hi with hi | hi
      · exact h.ownsIndices i hi name hname
      · exact hindex name (List.mem_singleton.mp hi ▸ hname)

end Entity

/-- Entities of different names, each as it is read. -/
structure Model.AsRead (m : Model) : Prop where
  names : m.entityNames.Nodup
  entities : m.All Entity.AsRead

theorem Model.AsRead.distinct {m : Model} (h : m.AsRead) : m.Distinct :=
  ⟨h.names, h.entities.imp fun _ h => h.fields⟩

/-- What is read is sound and distinct from what was read before. -/
def Draft.KeepsRead (d d' : Draft) : Prop := d.model.AsRead → d'.model.AsRead

namespace Draft

theorem KeepsRead.of_eq (h : d'.model.entities = d.model.entities) : d.KeepsRead d' := by
  rintro ⟨hnames, hentities⟩
  constructor
  · rwa [Model.entityNames, h]
  · exact hentities.of_eq h

theorem KeepsRead.trans {d'' : Draft} (h : d.KeepsRead d') (h' : d'.KeepsRead d'') :
    d.KeepsRead d'' := fun hread => h' (h hread)

end Draft

open Draft (KeepsRead)

theorem Reading.change_keeps {f : Model → Model} (h : Ends (Reading.change f) d u d')
    (hf : ∀ m, (f m).entities = m.entities) : d.KeepsRead d' :=
  .of_eq (Reading.change_ends h ▸ hf d.model)

theorem Reading.addEntity_keeps {e : Entity} (he : e.AsRead)
    (h : Ends (Reading.tryChange fun m => liftM (m.addEntity e)) d u d') : d.KeepsRead d' := by
  rintro ⟨hnames, hentities⟩
  have hadd : d.model.addEntity e = .ok d'.model :=
    Except.mapError_ok (g := Failure.duplicate) (Reading.tryChange_ends h)
  exact ⟨(Evolves.addEntity isChange_eq hadd).nodup isChange_eq hnames,
    hentities.addEntity he hadd⟩

namespace Schema

/-! ### Entities -/

section Entities

variable {e e' : Entity} {x : Xml.Element} {noted noted' : List Warning} {m : Model}

theorem addField_asRead (he : e.AsRead) (h : Ends (addField e x) noted e' noted') : e'.AsRead := by
  unfold addField at h
  obtain ⟨name, _, h⟩ := h.lift_bind
  obtain ⟨_, _, h⟩ := h.lift_bind
  obtain ⟨typeName, _, h⟩ := h.lift_bind
  split at h
  · obtain ⟨type, _, h⟩ := h.lift_bind
    obtain ⟨filter, n₁, _, h⟩ := h.bind
    obtain ⟨_, h⟩ := h.guard
    obtain ⟨e₁, hadd, h⟩ := h.lift_bind
    have he₁ := he.addField (.inl rfl) (Except.mapError_ok (g := Failure.duplicate) hadd)
    have hindexed : ∀ index : Index, index.fields = [Text.trim name] →
        (if x.flag "index" then e₁.addIndex index else e₁).AsRead := by
      intro index hindex
      split
      · refine he₁.addIndex fun indexed hindexed => ?_
        obtain ⟨_, rfl⟩ := Link.addField_ok (Except.mapError_ok (g := Failure.duplicate) hadd)
        rw [hindex] at hindexed
        rw [List.mem_singleton.mp hindexed, Entity.hasField_iff]
        exact List.mem_map_of_mem (List.mem_append_right _ (List.mem_singleton_self _))
      · exact he₁
    dsimp only at h
    split at h
    · have hkey := Except.mapError_ok (g := Failure.duplicate) (Ends.lift h).1
      exact (hindexed _ rfl).addKey (by simp) hkey
    · obtain ⟨rfl, -⟩ := h.pure
      exact hindexed _ rfl
  · exact h.throw.elim

/-- A key adds to an entity the fields that it names and that are not there. -/
theorem addKey_asRead (he : e.AsRead) (h : addKey m e x = .ok e') : e'.AsRead := by
  obtain ⟨_, _, h⟩ := Except.bind_ok h
  obtain ⟨e₁, hlisted, h⟩ := Except.bind_ok h
  obtain ⟨inside, _, h⟩ := Except.bind_ok h
  obtain ⟨hnonempty, h⟩ := Except.guard_ok h
  have he₁ : e₁.AsRead := by
    refine Except.foldlM_ok (fun e : Entity => e.AsRead) (fun name _ e e' hstep he => ?_) hlisted he
    unfold addKeyField at hstep
    split at hstep
    · cases hstep
      exact he
    · split at hstep
      · cases hstep
      · exact he.addField (.inr rfl) (Except.mapError_ok (g := Failure.duplicate) hstep)
  refine he₁.addKey ?_ (Except.mapError_ok (g := Failure.duplicate) h)
  simpa using hnonempty

/-- A field of an index is looked up on the entity. -/
theorem addIndexField_ok {index : String} {fields fields' : List String}
    (h : addIndexField e index fields x = .ok fields')
    (hfields : ∀ name ∈ fields, e.hasField name = true) :
    ∀ name ∈ fields', e.hasField name = true := by
  unfold addIndexField at h
  split at h
  · next name _ =>
    obtain ⟨hfound, h⟩ := Except.guard_ok h
    obtain ⟨_, h⟩ := Except.guard_ok h
    cases h
    intro other hother
    rcases List.mem_append.mp hother with hother | hother
    · exact hfields other hother
    · simpa [List.mem_singleton.mp hother] using hfound
  · cases h

theorem addIndices_asRead (he : e.AsRead) (h : addIndices e x = .ok e') : e'.AsRead := by
  unfold addIndices at h
  split at h
  · cases h
    exact he
  · refine Except.foldlM_ok (fun e : Entity => e.AsRead) (fun x _ e₁ e₂ hstep he₁ => ?_) h he
    obtain ⟨name, _, hstep⟩ := Except.bind_ok hstep
    obtain ⟨fields, hfields, hstep⟩ := Except.bind_ok hstep
    obtain ⟨_, hstep⟩ := Except.guard_ok hstep
    cases hstep
    refine he₁.addIndex (Except.foldlM_ok
      (fun fields : List String => ∀ name ∈ fields, e₁.hasField name = true)
      (fun _ _ _ _ hfield => addIndexField_ok hfield) hfields (by simp))
  · cases h

theorem readEntity_asRead {module : Option String}
    (h : Ends (readEntity x module m) noted e noted') : e.AsRead := by
  obtain ⟨plain, hplain, h⟩ := h.lift_bind
  obtain ⟨e₁, n₁, hfields, h⟩ := h.bind
  obtain ⟨e₂, hkeys, h⟩ := h.lift_bind
  obtain ⟨e₃, hindices, h⟩ := h.lift_bind
  obtain ⟨_, n₂, _, h⟩ := h.bind
  obtain ⟨rfl, rfl⟩ := h.pure
  have hplain : plain.AsRead := by
    obtain ⟨name, _, hplain⟩ := Except.bind_ok hplain
    obtain ⟨_, _, hplain⟩ := Except.bind_ok hplain
    obtain ⟨size, _, hplain⟩ := Except.bind_ok hplain
    cases hplain
    exact ⟨⟨⟨.nil, by simp⟩, .nil⟩, by simp, by simp [Entity.OwnsIndices]⟩
  have he₁ : e₁.AsRead := hfields.foldlM_keeps (fun e _ => e.AsRead)
    (fun _ _ _ _ _ _ hstep he => addField_asRead he hstep) hplain
  have he₂ : e₂.AsRead := Except.foldlM_ok (fun e : Entity => e.AsRead)
    (fun _ _ _ _ hstep he => addKey_asRead he hstep) hkeys he₁
  exact addIndices_asRead he₂ (Except.mapError_ok (g := Failure.schema) hindices)

end Entities

/-! ### Declarations -/

theorem addToModule_keeps {module module' : Module} {x : Xml.Element}
    (h : Ends (addToModule module x) d module' d') : d.KeepsRead d' := by
  unfold addToModule at h
  split at h
  · obtain ⟨e, d₁, hread, h⟩ := h.bind
    obtain ⟨_, d₂, hadd, h⟩ := h.bind
    obtain ⟨rfl, rfl⟩ := h.pure
    obtain ⟨hmodel, hread⟩ := Reading.noting_ends hread
    exact (KeepsRead.of_eq (congrArg Model.entities hmodel)).trans
      (Reading.addEntity_keeps (readEntity_asRead hread) hadd)
  · obtain ⟨rfl, rfl⟩ := h.pure; exact .of_eq rfl
  · obtain ⟨_, d₁, hnote, h⟩ := h.bind
    obtain ⟨rfl, rfl⟩ := h.pure
    exact .of_eq (congrArg Model.entities (Reading.noting_ends hnote).1)

theorem readModule_keeps {x : Xml.Element} (h : Ends (readModule x) d u d') :
    d.KeepsRead d' := by
  unfold readModule at h
  obtain ⟨name, _, h⟩ := h.lift_bind
  obtain ⟨_, _, h⟩ := h.lift_bind
  obtain ⟨_, h⟩ := h.get_bind.guard
  obtain ⟨module, d₁, hchildren, h⟩ := h.bind
  refine KeepsRead.trans ?_ (Reading.change_keeps h fun _ => rfl)
  exact hchildren.foldlM_keeps (fun _ d => d.model.AsRead)
    fun _ _ _ _ _ _ => addToModule_keeps

theorem addDeclaration_keeps {x : Xml.Element} (h : Ends (addDeclaration x) d u d') :
    d.KeepsRead d' := by
  unfold addDeclaration at h
  split at h
  · obtain ⟨e, d₁, hread, h⟩ := h.bind
    obtain ⟨hmodel, hread⟩ := Reading.noting_ends hread
    exact (KeepsRead.of_eq (congrArg Model.entities hmodel)).trans
      (Reading.addEntity_keeps (readEntity_asRead hread) h)
  · exact readModule_keeps h
  · obtain ⟨view, _, h⟩ := h.lift_bind
    exact Reading.change_keeps h fun _ => rfl
  · obtain ⟨method, d₁, hread, h⟩ := h.bind
    refine (KeepsRead.of_eq (congrArg Model.entities (Reading.noting_ends hread).1)).trans ?_
    exact Reading.change_keeps h.get_bind.guard.2 fun _ => rfl
  · exact Reading.change_keeps h fun _ => rfl
  · exact .of_eq (congrArg Model.entities (Reading.noting_ends h).1)

theorem read_keeps {text : String} (h : Ends (read text) d u d') : d.KeepsRead d' := by
  unfold read at h
  obtain ⟨root, _, h⟩ := h.lift_bind
  obtain ⟨_, d₁, htitle, h⟩ := h.bind
  have hread : d₁.KeepsRead d' :=
    h.forM_keeps (fun d : Draft => d.model.AsRead) fun _ _ _ _ => addDeclaration_keeps
  refine (Reading.change_keeps htitle fun m => ?_).trans hread
  unfold entitle
  dsimp only
  split <;> split <;> rfl

end Schema

namespace Compilation

open Pass (complete)

theorem readSchemas_asRead {schemas : List String}
    (h : Ends (readSchemas schemas) { model := .empty } u d) : d.model.AsRead :=
  h.forM_keeps (fun d => d.model.AsRead) (fun _ _ _ _ => Schema.read_keeps)
    ⟨.nil, by simp [Model.All, Model.empty, Model.named]⟩

theorem authorizeAll_asRead {names : List String} {m m' : Model} (hm : m.AsRead)
    (h : authorizeAll names m = .ok m') : m'.AsRead := by
  refine Except.foldlM_ok (fun m' : Model => m'.AsRead) (fun name _ m₁ m₂ hstep hm₁ => ?_) h hm
  have hsame : ∀ e, (authorize (hasInterface m) e).name = e.name ∧
      (e.AsRead → (authorize (hasInterface m) e).AsRead) := by
    intro e
    unfold authorize
    dsimp only
    split <;> exact ⟨rfl, fun he => he.of_same rfl rfl rfl⟩
  split at hstep
  · cases hstep
    constructor
    · rw [Model.entityNames_changeEntity fun e => (hsame e).1]
      exact hm₁.names
    · exact hm₁.entities.changeEntity fun e _ => (hsame e).2
  · cases hstep

/-- The model that the schema documents declare, with access rights. -/
def declared (options : Options) (schemas : List String) : Except Failure Model := do
  let (outcome, draft) := (readSchemas schemas).run { model := .empty }
  outcome
  authorizeAll options.authorizable draft.model

theorem declared_asRead {options : Options} {schemas : List String} {m : Model}
    (h : declared options schemas = .ok m) : m.AsRead := by
  unfold declared at h
  rcases hread : (readSchemas schemas).run { model := .empty } with ⟨outcome, draft⟩
  rw [hread] at h
  obtain ⟨_, rfl, h⟩ := Except.bind_ok h
  exact authorizeAll_asRead (readSchemas_asRead hread)
    (Except.mapError_ok (g := Failure.reference) h)

theorem completeSchemas_steps {options : Options} {schemas : List String}
    (h : completeSchemas options schemas = .ok d) : ∃ m warnings,
      declared options schemas = .ok m ∧ Ends (complete options) m warnings d.model := by
  unfold completeSchemas at h
  rcases hread : (readSchemas schemas).run { model := .empty } with ⟨outcome, draft⟩
  rw [hread] at h
  obtain ⟨_, rfl, hrest⟩ := Except.bind_ok h
  obtain ⟨m, hm, hrest⟩ := Except.bind_ok hrest
  rcases hrun : (complete options).run m with ⟨outcome, model⟩
  rw [hrun] at hrest
  obtain ⟨warnings, rfl, hdone⟩ := Except.bind_ok hrest
  cases hdone
  refine ⟨m, warnings, ?_, hrun⟩
  unfold declared
  rw [hread]
  exact hm

theorem addScreens_entities {dialect : Dialect} {library : Screens.Library} {text : String}
    (h : addScreens dialect library text d = .ok d') : d'.model.entities = d.model.entities := by
  unfold addScreens at h
  rcases hread : (Screens.read dialect library text).run d with ⟨outcome, draft⟩
  rw [hread] at h
  obtain ⟨_, rfl, hrest⟩ := Except.bind_ok h
  obtain ⟨warnings, _, hrest⟩ := Except.bind_ok hrest
  cases hrest
  have hread : Ends (Screens.read dialect library text) d _ draft := hread
  unfold Screens.read at hread
  obtain ⟨root, _, hread⟩ := hread.lift_bind
  obtain ⟨_, _, hread⟩ := hread.lift_bind
  obtain ⟨_, _, hread⟩ := hread.lift_bind
  obtain ⟨_, d₁, htitle, hread⟩ := hread.bind
  have hgather : draft.model.entities = d₁.model.entities :=
    (congrArg (·.2.model.entities) hread).symm
  rw [hgather, Reading.change_ends htitle]
  rfl

/-- A compilation that succeeds completes the model that the documents declare. -/
theorem compile_declared {options : Options} {library : Screens.Library} {schemas : List String}
    {screens : Option String} {c : Compiled}
    (h : compile options library schemas screens = .ok c) : ∃ m m' warnings,
      declared options schemas = .ok m ∧ Ends (complete options) m warnings m' ∧
      c.model.entities = m'.entities ∧ c.order = (Dependency.order c.model).names := by
  unfold compile at h
  obtain ⟨draft, hdraft, h⟩ := Except.bind_ok h
  obtain ⟨m, warnings, hdeclared, hcomplete⟩ := completeSchemas_steps hdraft
  cases screens with
  | none =>
    cases h
    exact ⟨m, draft.model, warnings, hdeclared, hcomplete, rfl, rfl⟩
  | some text =>
    obtain ⟨shown, hshown, h⟩ := Except.bind_ok h
    cases h
    exact ⟨m, draft.model, warnings, hdeclared, hcomplete, addScreens_entities hshown, rfl⟩

/-- A compilation that succeeds completes a model as it is read. -/
theorem compile_asRead {options : Options} {library : Screens.Library} {schemas : List String}
    {screens : Option String} {c : Compiled}
    (h : compile options library schemas screens = .ok c) : ∃ m m' warnings,
      m.AsRead ∧ Ends (complete options) m warnings m' ∧
      c.model.entities = m'.entities ∧ c.order = (Dependency.order c.model).names := by
  obtain ⟨m, m', warnings, hdeclared, hrest⟩ := compile_declared h
  exact ⟨m, m', warnings, declared_asRead hdeclared, hrest⟩

/-- A compilation that succeeds completes a model whose names are distinct. -/
theorem compile_steps {options : Options} {library : Screens.Library} {schemas : List String}
    {screens : Option String} {c : Compiled}
    (h : compile options library schemas screens = .ok c) : ∃ m m' warnings,
      m.Distinct ∧ Ends (complete options) m warnings m' ∧
      c.model.entities = m'.entities ∧ c.order = (Dependency.order c.model).names := by
  obtain ⟨m, m', warnings, hread, hrest⟩ := compile_asRead h
  exact ⟨m, m', warnings, hread.distinct, hrest⟩

end Compilation

end EntitySchema
