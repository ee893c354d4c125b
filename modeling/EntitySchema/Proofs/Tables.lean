import EntitySchema.Proofs.Inheritance
import EntitySchema.Proofs.LinkEntities

/-! The passes that come last. They hand labels and decorators on, put identity roots
above roots and copy the fields that keys name. Every entity grows by them, those that
they add have no table, and every field that they add is a copy of a field that was
there, or no reference. -/

namespace EntitySchema

open Model (Evolves)
open Entity (SameBearing Gains Grows OnlyAt isChange_eq isChange_sameBearing isChange_gains
  isChange_grows isChange_onlyAt)

/-- The field refers to what the other refers to, and was declared only if that was. -/
def Field.Copies (f f' : Field) : Prop :=
  f'.type = f.type ∧ (f'.origin = f.origin ∨ f'.origin = .constraintCopy)

/-- The copy that an entity gets of a field that one of its keys names. -/
def Field.constraintCopy (f : Field) : Field := { f with system := true, origin := .constraintCopy }

namespace Entity

/-- The entity grows, and its own fields stay where they are. -/
structure Adds (e e' : Entity) : Prop extends Grows e e' where
  own : e.fields <+: e'.fields

theorem isChange_adds : IsChange Adds where
  refl e := { isChange_grows.refl e with own := List.prefix_refl _ }
  trans h₁ h₂ := { isChange_grows.trans h₁.toGrows h₂.toGrows with
    own := h₁.own.trans h₂.own }
  name h := h.name

end Entity

open Entity (Adds isChange_adds)

theorem Field.Copies.target? {f f' : Field} (h : f.Copies f') : f'.target? = f.target? := by
  unfold Field.target?
  rw [h.1]

namespace Model

/-- A field that is no reference, or a copy of an own field of an entity. -/
def Provides (m : Model) (f' : Field) : Prop :=
  f'.target? = none ∨ ∃ e ∈ m.entities, ∃ f ∈ e.fields, f.Copies f'

/-- All fields of the second model are provided by the first. -/
def ProvidesAll (m m' : Model) : Prop := ∀ e' ∈ m'.entities, ∀ f' ∈ e'.fields, m.Provides f'

variable {m m' m'' : Model}

theorem provides_of_mem {e : Entity} {f : Field} (he : e ∈ m.entities) (hf : f ∈ e.fields) :
    m.Provides f := .inr ⟨e, he, f, hf, rfl, .inl rfl⟩

theorem provides_of_visible {name : String} {f : Field} (hf : f ∈ m.allFields name) :
    m.Provides f := by
  obtain ⟨e, he, hf⟩ := mem_allFields hf
  exact provides_of_mem (entity?_mem (mem_lineage.mp he).1) hf

theorem ProvidesAll.of_eq (h : m'.entities = m.entities) : ProvidesAll m m' :=
  fun _ he _ hf => provides_of_mem (h ▸ he) hf

theorem Provides.trans (h : ProvidesAll m m') {f : Field} (hf : m'.Provides f) : m.Provides f := by
  rcases hf with hnone | ⟨e', he', f', hf', htype, horigin⟩
  · exact .inl hnone
  · rcases h e' he' f' hf' with hnone | ⟨e, he, g, hg, htype', horigin'⟩
    · exact .inl ((Field.Copies.target? ⟨htype, horigin⟩).trans hnone)
    · refine .inr ⟨e, he, g, hg, htype.trans htype', ?_⟩
      rcases horigin with horigin | horigin
      · rwa [horigin]
      · exact .inr horigin

theorem ProvidesAll.trans (h : ProvidesAll m m') (h' : ProvidesAll m' m'') : ProvidesAll m m'' :=
  fun e he f hf => (h' e he f hf).trans h

/-- Changing one entity provides all fields if the fields it has then are provided. -/
theorem ProvidesAll.changeEntity {name : String} {change : Entity → Entity}
    (h : ∀ e, m.entity? name = some e → ∀ f ∈ (change e).fields, m.Provides f) :
    ProvidesAll m (m.changeEntity name change) := by
  intro e' he' f hf
  rcases exists_of_mem_changeFirst he' with he | ⟨e, he, rfl⟩
  · exact provides_of_mem he hf
  · exact h e he f hf

/-- The model has grown, by entities without tables, by copies of what was there and by
fields that are no references. -/
structure Extension (m m' : Model) : Prop where
  adds : ∃ added, Evolves Adds added m m'
  provides : ProvidesAll m m'
  fresh : ∀ e ∈ m'.entities, e.name ∈ m.entityNames ∨ e.isAbstract = true

theorem Extension.grows (h : Extension m m') : ∃ added, Evolves Grows added m m' :=
  h.adds.imp fun _ h => h.mono fun _ _ h => h.toGrows

theorem Extension.refl (m : Model) : Extension m m :=
  ⟨⟨[], .refl isChange_adds m⟩, .of_eq rfl, fun _ he => .inl (List.mem_map_of_mem he)⟩

theorem Extension.trans (h : Extension m m') (h' : Extension m' m'') : Extension m m'' := by
  obtain ⟨added, hadds⟩ := h.adds
  obtain ⟨added', hadds'⟩ := h'.adds
  refine ⟨⟨added ++ added', hadds.trans isChange_adds hadds'⟩, h.provides.trans h'.provides, ?_⟩
  intro e'' he''
  rcases hadds'.mem he'' with ⟨e', he', hsame⟩ | hadded
  · exact hsame.name ▸ hsame.isAbstract ▸ h.fresh e' he'
  · exact .inr ((h'.fresh e'' he'').resolve_left (hadds'.fresh hadded))

/-- Changing one entity, whose fields are provided then. -/
theorem Extension.changeEntity {name : String} {change : Entity → Entity}
    (hadds : ∀ e, m.entity? name = some e → Adds e (change e))
    (hfields : ∀ e, m.entity? name = some e → ∀ f ∈ (change e).fields, m.Provides f) :
    Extension m (m.changeEntity name change) := by
  have hchanged : Evolves Adds [] m (m.changeEntity name change) :=
    .changeEntity isChange_adds hadds
  refine ⟨⟨[], hchanged⟩, .changeEntity hfields, fun e' he' => .inl ?_⟩
  obtain ⟨e, he, hsame⟩ := (hchanged.mem he').resolve_right (by simp)
  exact hsame.name ▸ List.mem_map_of_mem he

/-- Adding an entity without a table, whose fields are provided. -/
theorem Extension.addEntity {e : Entity} (h : m.addEntity e = .ok m')
    (habstract : e.isAbstract = true) (hfields : ∀ f ∈ e.fields, m.Provides f) :
    Extension m m' := by
  refine ⟨⟨_, .addEntity isChange_adds h⟩, fun x hx f hf => ?_, fun x hx => ?_⟩ <;>
  rw [(addEntity_ok h).2] at hx <;> rcases List.mem_append.mp hx with hx | hx
  · exact provides_of_mem hx hf
  · exact hfields f (List.mem_singleton.mp hx ▸ hf)
  · exact .inl (List.mem_map_of_mem hx)
  · exact .inr (List.mem_singleton.mp hx ▸ habstract)

end Model

open Model (ProvidesAll Extension)

variable {m m' : Model}

/-! ### Labels and decorators -/

theorem Reference.propagateLabels_bearing (m : Model) :
    Evolves SameBearing [] m (Reference.propagateLabels m) := by
  refine Evolves.map (m := m) rfl fun e _ => SameBearing.of_forall₂ ?_
  rw [List.forall₂_map_right_iff]
  refine List.forall₂_same.mpr fun f _ => Field.bearing_mapTarget f fun t => ?_
  unfold relabel
  split
  · split
    · cases (m.entity? t.entity).bind (·.labels) <;> rfl
    · rfl
  · rfl

namespace Hierarchy

theorem propagateDecorators_extension (m : Model) : Extension m (propagateDecorators m) := by
  unfold propagateDecorators
  refine List.foldlRecOn _ _ (Extension.refl m) fun m' hm' inherited _ => ?_
  refine hm'.trans (.changeEntity (fun e _ => ?_) fun e he f hf => ?_)
  · exact { isChange_adds.refl e with }
  · exact Model.provides_of_mem (Model.entity?_mem he) hf

/-! ### Identity roots -/

theorem identityOf_ok {root identity : Entity} (h : identityOf m root = .ok identity) :
    identity = { plainIdentity root with
      fields := { discriminator (members m root.name) with readonly := false } ::
        m.primaryKeyFields root.name
      keys := (m.primaryKey? root.name).toList.map fun key =>
        { fields := key.fields, subclass := key.subclass } } := by
  obtain ⟨e₁, hfields, h⟩ := Except.bind_ok h
  have hplain := Link.addFields_ok hfields
  dsimp only at h
  split at h
  · next key hkey =>
    obtain ⟨e₂, hadd, h⟩ := Except.bind_ok h
    obtain ⟨_, rfl⟩ := Link.addKey_ok hadd
    obtain ⟨_, rfl⟩ := Link.insertField_ok h
    rw [hplain, hkey]
    rfl
  · next hnone =>
    obtain ⟨_, rfl⟩ := Link.insertField_ok h
    rw [hplain, hnone]
    rfl

theorem identityOf_provides {root identity : Entity} (h : identityOf m root = .ok identity) :
    ∀ f ∈ identity.fields, m.Provides f := by
  obtain rfl := identityOf_ok h
  intro f hf
  rcases List.mem_cons.mp hf with rfl | hf
  · exact .inl rfl
  · exact Model.provides_of_visible (Model.mem_primaryKeyFields hf).2

/-- An identity root is added, and becomes the parent of the root. -/
theorem addIdentity_steps {name : String} {root : Entity} (h : addIdentity name m = .ok m')
    (hfound : m.entity? name = some root) : ∃ identity m₁, identityOf m root = .ok identity ∧
      m.addEntity identity = .ok m₁ ∧
      m' = m₁.changeEntity name fun e => { e with parents := [identityName name] } := by
  unfold addIdentity at h
  rw [hfound] at h
  obtain ⟨identity, hidentity, h⟩ := Except.bind_ok h
  obtain ⟨m₁, hadd, h⟩ := Except.bind_ok h
  cases h
  exact ⟨identity, m₁, Except.mapError_ok (g := Failure.duplicate) hidentity,
    Except.mapError_ok (g := Failure.duplicate) hadd, rfl⟩

/-- Putting an identity root above an entity without parents. -/
theorem addIdentity_ok {name : String} {root : Entity} (h : addIdentity name m = .ok m')
    (hfound : m.entity? name = some root) (hroot : root.parents = []) :
    Extension m m' ∧ ∃ identity, Evolves (OnlyAt name) [identity] m m' := by
  obtain ⟨identity, m₁, hidentity, hadd, rfl⟩ := addIdentity_steps h hfound
  have habstract : identity.isAbstract = true := by
    obtain rfl := identityOf_ok hidentity
    rfl
  have hadded : Extension m m₁ := .addEntity hadd habstract (identityOf_provides hidentity)
  have honly : Evolves (OnlyAt name) [identity.name] m m₁ := .addEntity (isChange_onlyAt name) hadd
  have hsame : Evolves Eq [identity.name] m m₁ := .addEntity isChange_eq hadd
  refine ⟨hadded.trans (.changeEntity (fun e he => ?_) fun e he f hf => ?_), identity.name, ?_⟩
  · obtain ⟨_, he', rfl⟩ := hsame.entity? isChange_eq hfound
    rw [he] at he'
    cases he'
    exact { isChange_adds.refl root with parents := by simp [hroot] }
  · exact Model.provides_of_mem (Model.entity?_mem he) hf
  · exact honly.trans_nil (isChange_onlyAt name) (.changeEntity_onlyAt fun _ => rfl)

theorem isRoot_parents {name : String} (h : m.isRoot name = true) :
    ∃ root, m.entity? name = some root ∧ root.parents = [] := by
  obtain ⟨root, hroot, -, hparents, -⟩ := Model.isRoot_iff.mp h
  exact ⟨root, hroot, hparents⟩

/-- Identity roots go above entities which have no parents yet when their turn comes. -/
theorem addIdentityEach_ok {u : Unit} : ∀ {names : List String} {m : Model}, names.Nodup →
    (∀ name ∈ names, ∃ root, m.entity? name = some root ∧ root.parents = []) →
    Ends (names.forM fun name => Pass.step (addIdentity name)) m u m' → Extension m m'
  | [], m, _, _, h => by cases h; exact .refl m'
  | name :: rest, m, hnodup, hroots, h => by
    obtain ⟨m₁, hstep, h⟩ := Pass.step_bind h
    obtain ⟨hname, hnodup⟩ := List.nodup_cons.mp hnodup
    obtain ⟨root, hfound, hparents⟩ := hroots name List.mem_cons_self
    obtain ⟨hextension, identity, honly⟩ := addIdentity_ok hstep hfound hparents
    -- the identity root becomes a parent of this root, and of no other
    have hrest : ∀ other ∈ rest, ∃ root, m₁.entity? other = some root ∧ root.parents = [] := by
      intro other hother
      obtain ⟨e, he, hparents⟩ := hroots other (List.mem_cons_of_mem _ hother)
      obtain ⟨e', he', -, hsame⟩ := honly.entity? (isChange_onlyAt name) he
      have hne : e.name ≠ name := fun heq => hname (heq ▸ Model.entity?_name he ▸ hother)
      exact ⟨e', he', hsame hne ▸ hparents⟩
    exact hextension.trans (addIdentityEach_ok hnodup hrest h)

theorem addIdentities_extension {u : Unit} (hnodup : m.entityNames.Nodup)
    (h : Ends addIdentities m u m') : Extension m m' :=
  addIdentityEach_ok (hnodup.filter _)
    (fun _ hname => isRoot_parents (List.mem_filter.mp hname).2) h.get_bind

/-! ### Key fields -/

/-- A name is there already, or the field that is seen under it is copied. -/
theorem copyKeyField_ok {e : Entity} {copies copies' : List Field} {name : String}
    (h : copyKeyField m e copies name = .ok copies') :
    (e.hasField name || copies.any (·.name = name)) = true ∧ copies' = copies ∨
      ¬(e.hasField name || copies.any (·.name = name)) = true ∧
        ∃ f ∈ m.allFields e.name, f.name = name ∧ copies' = copies ++ [f.constraintCopy] := by
  unfold copyKeyField at h
  split at h
  · next hthere =>
    cases h
    exact .inl ⟨hthere, rfl⟩
  · next hnew =>
    split at h
    · next f hf =>
      cases h
      exact .inr ⟨hnew, f, List.mem_of_find?_eq_some hf, by simpa using List.find?_some hf, rfl⟩
    · cases h

/-- Every copy made for an entity is a copy of a field that it sees. -/
theorem keyFieldCopies_ok {e : Entity} {copies : List Field}
    (h : keyFieldCopies m e = .ok copies) :
    ∀ f' ∈ copies, ∃ f ∈ m.allFields e.name, f' = f.constraintCopy := by
  refine Except.foldlM_ok
    (fun copies : List Field => ∀ f' ∈ copies, ∃ f ∈ m.allFields e.name, f' = f.constraintCopy)
    (fun name _ copies copies' hcopy hcopies f' hf' => ?_) h (by simp)
  rcases copyKeyField_ok hcopy with ⟨-, rfl⟩ | ⟨-, f, hf, -, rfl⟩
  · exact hcopies f' hf'
  · rcases List.mem_append.mp hf' with hf' | hf'
    · exact hcopies f' hf'
    · exact ⟨f, hf, List.mem_singleton.mp hf'⟩

/-- The copies stand behind the own fields of the entity. -/
theorem copyKeyFieldsOf_ok {name : String} (h : copyKeyFieldsOf name m = .ok m') :
    m.entity? name = none ∧ m' = m ∨ ∃ e copies, m.entity? name = some e ∧
      keyFieldCopies m e = .ok copies ∧
      m' = m.changeEntity name fun e' => { e' with fields := e'.fields ++ copies } := by
  unfold copyKeyFieldsOf at h
  split at h
  · next hnone =>
    cases h
    exact .inl ⟨hnone, rfl⟩
  · next e he =>
    obtain ⟨copies, hcopies, h⟩ := Except.bind_ok h
    cases h
    exact .inr ⟨e, copies, he, Except.mapError_ok (g := Failure.key) hcopies, rfl⟩

theorem copyKeyFieldsOf_extension {name : String} (h : copyKeyFieldsOf name m = .ok m') :
    Extension m m' := by
  rcases copyKeyFieldsOf_ok h with ⟨-, rfl⟩ | ⟨e, copies, -, hcopies, rfl⟩
  · exact .refl m'
  · refine .changeEntity (fun e' _ => ?_) fun e' he' f hf => ?_
    · exact { Entity.Gains.grows ⟨[], copies, [], by simp⟩ with
        own := List.prefix_append _ _ }
    · rcases List.mem_append.mp hf with hf | hf
      · exact Model.provides_of_mem (Model.entity?_mem he') hf
      · obtain ⟨g, hg, rfl⟩ := keyFieldCopies_ok hcopies f hf
        obtain ⟨x, hx, hown⟩ := Model.mem_allFields hg
        exact .inr ⟨x, Model.entity?_mem (Model.mem_lineage.mp hx).1, g, hown, rfl, .inr rfl⟩

theorem copyKeyFields_extension {u : Unit} (h : Ends copyKeyFields m u m') : Extension m m' :=
  h.get_bind.forM_keeps (fun m' => Extension m m')
    (fun _ _ _ _ hstep hm => hm.trans (copyKeyFieldsOf_extension (Pass.step_ends hstep))) (.refl m)

end Hierarchy

/-! ### All of them -/

/-- Identity roots are added, if the mapping has them. -/
def Pass.Identifies (options : Options) (m m' : Model) : Prop :=
  options.mapping = .classPerTable ∧ Ends Hierarchy.addIdentities m () m' ∨
    options.mapping ≠ .classPerTable ∧ m' = m

/-- The steps of completing tables, with the models between them. -/
theorem Pass.completeTables_steps {options : Options} {u : Unit}
    (h : Ends (Pass.completeTables options) m u m') : ∃ m₁,
      Identifies options (Hierarchy.propagateDecorators (Reference.propagateLabels m)) m₁ ∧
      Ends Hierarchy.copyKeyFields m₁ () m' ∧
      Identifier.checkSizes options.dialect m' = .ok () := by
  have hlabelled := Pass.change_bind h
  have h := Pass.change_bind hlabelled
  dsimp only at h
  split at h
  · next hmapping =>
    obtain ⟨_, m₁, hidentities, h⟩ := h.bind
    obtain ⟨_, m₂, hcopies, h⟩ := h.bind
    obtain ⟨hsizes, rfl⟩ := Pass.check_ends h
    exact ⟨m₁, .inl ⟨hmapping, hidentities⟩, hcopies, Except.mapError_ok hsizes⟩
  · next hmapping =>
    obtain ⟨_, m₂, hcopies, h⟩ := h.bind
    obtain ⟨hsizes, rfl⟩ := Pass.check_ends h
    exact ⟨_, .inr ⟨hmapping, rfl⟩, hcopies, Except.mapError_ok hsizes⟩

/-- Once the labels of targets are handed on, the model is extended only. -/
theorem completeTables_extension {options : Options} {u : Unit} (hnodup : m.entityNames.Nodup)
    (h : Ends (Pass.completeTables options) m u m') :
    Extension (Reference.propagateLabels m) m' := by
  obtain ⟨m₁, hidentities, hcopies, -⟩ := Pass.completeTables_steps h
  have hdecorated := Hierarchy.propagateDecorators_extension (Reference.propagateLabels m)
  refine (hdecorated.trans ?_).trans (Hierarchy.copyKeyFields_extension hcopies)
  rcases hidentities with ⟨-, hidentities⟩ | ⟨-, rfl⟩
  · obtain ⟨added, hgrows⟩ := hdecorated.grows
    have hnodup := hgrows.nodup isChange_grows
      ((Reference.propagateLabels_bearing m).nodup isChange_sameBearing hnodup)
    exact Hierarchy.addIdentities_extension hnodup hidentities
  · exact .refl _

end EntitySchema
