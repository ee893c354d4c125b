import EntitySchema.Proofs.DistinctFields

/-! Sound entities. Their own fields and their indices have different names, and none of
their keys is empty. The passes keep entities sound, and what they add is sound;
the pass that copies key fields leaves every key over own fields. -/

namespace EntitySchema

open Model (Evolves)
open Entity (SameOutline SameBearing OnlyAt isChange_onlyAt)

variable {m m' : Model} {e e' : Entity} {name : String} {dialect : Dialect} {options : Options}

/-! ### Indices and keys -/

namespace Entity

/-- Indices have different names, and keys name fields. -/
structure Tidy (e : Entity) : Prop where
  indices : (e.indices.map (·.name)).Nodup
  keys : ∀ key ∈ e.keys, key.fields ≠ []

/-- Own fields have different names, too. -/
structure Sound (e : Entity) : Prop extends Tidy e where
  fields : e.DistinctFields

/-- The keys of the entity name its own fields. -/
def OwnsKeys (e : Entity) : Prop := ∀ key ∈ e.keys, ∀ name ∈ key.fields, e.hasField name = true

theorem sound_iff : e.Sound ↔ (e.fields.map (·.name)).Nodup ∧ (e.indices.map (·.name)).Nodup ∧
    ∀ key ∈ e.keys, key.fields ≠ [] :=
  ⟨fun h => ⟨h.fields, h.indices, h.keys⟩, fun ⟨hfields, hindices, hkeys⟩ =>
    ⟨⟨hindices, hkeys⟩, hfields⟩⟩

instance : Decidable e.Sound := decidable_of_iff' _ sound_iff

instance : Decidable e.OwnsKeys :=
  inferInstanceAs (Decidable (∀ key ∈ e.keys, ∀ name ∈ key.fields, _))

theorem Tidy.of_same (h : e.Tidy) (hindices : e'.indices = e.indices) (hkeys : e'.keys = e.keys) :
    e'.Tidy :=
  ⟨hindices ▸ h.indices, hkeys ▸ h.keys⟩

theorem SameOutline.tidy (h : SameOutline e e') (he : e.Tidy) : e'.Tidy :=
  he.of_same h.indices h.keys

theorem SameOutline.sound (h : SameOutline e e') (he : e.Sound) : e'.Sound :=
  { h.tidy he.toTidy with fields := h.distinct he.fields }

/-- One more key, which names fields. -/
theorem Tidy.lead {key : Key} (h : e.Tidy) (hkey : key.fields ≠ []) :
    { e with keys := key :: e.keys }.Tidy :=
  ⟨h.indices, List.forall_mem_cons.mpr ⟨hkey, h.keys⟩⟩

theorem addKey_tidy {key : Key} (he : e.Tidy) (hkey : key.fields ≠ [])
    (h : e.addKey key = .ok e') : e'.Tidy := by
  rw [(Link.addKey_ok h).2]
  refine ⟨he.indices, fun k hk => ?_⟩
  rcases List.mem_append.mp hk with hk | hk
  · exact he.keys k hk
  · rwa [List.mem_singleton.mp hk]

end Entity

open Entity (Tidy Sound OwnsKeys)

/-! ### Up to references -/

namespace Hierarchy

theorem copyParentKey_tidy {parent : String} (hm : m.All Tidy)
    (h : copyParentKey name parent m = .ok m') : m'.All Tidy := by
  unfold copyParentKey at h
  split at h
  · cases h
  · next hsome =>
    cases h
    refine hm.changeEntity fun e _ he => ?_
    have hfields : ((m.primaryKeyFields parent).foldl (addParentKeyField parent) e).Tidy := by
      refine List.foldlRecOn _ _ he fun e he f _ => ?_
      unfold addParentKeyField
      split
      · exact he
      · exact he.of_same rfl rfl
    unfold leadWithKey
    split
    · exact hfields
    · exact hfields.lead (by simpa using hsome)

theorem propagateKeys_tidy {u : Unit} (hm : m.All Tidy) (h : Ends propagateKeys m u m') :
    m'.All Tidy := by
  unfold propagateKeys at h
  obtain ⟨_, -, h⟩ := Pass.check_bind h
  obtain ⟨_, m₁, hinterfaces, h⟩ := h.get_bind.bind
  have hm₁ : m₁.All Tidy := hinterfaces.forM_keeps (fun m => m.All Tidy)
    (fun name _ m m' hstep hm => by
      obtain rfl := Pass.change_ends hstep
      unfold copyInterfaceKeys
      split
      · exact hm
      · exact hm.changeEntity fun e _ he => he.of_same rfl rfl) hm
  refine h.get_bind.forM_keeps (fun m => m.All Tidy) (fun name _ m m' hstep => ?_) hm₁
  exact hstep.get_bind.forM_keeps (fun m => m.All Tidy)
    fun parent _ m m' hstep hm => copyParentKey_tidy hm (Pass.step_ends hstep)

theorem Discriminated.tidy {warnings : List Warning} (h : Discriminated m e e' warnings)
    (he : e.Tidy) : e'.Tidy := by
  cases h with
  | apart _ => exact he
  | within _ => exact he.of_same rfl rfl

end Hierarchy

theorem Link.relocate_tidy {u : Unit} (hm : m.All Tidy) (h : Ends (relocate dialect) m u m') :
    m'.All Tidy := by
  obtain ⟨_, moved, hloop, h⟩ := h.get_bind.bind
  obtain rfl := Pass.change_ends h
  have hmoved : moved.All Tidy := hloop.foldlM_keeps (fun _ m => m.All Tidy)
    (fun name _ _ _ _ _ hstep hm => by
      rcases moveTo_cases hstep with ⟨rfl, -⟩ | ⟨_, _, _, _, _, _, rfl⟩
      · exact hm
      · exact hm.changeEntity fun _ _ he => he.of_same rfl rfl) hm
  refine hmoved.evolves (R := Entity.Strips) (.map rfl fun _ _ => rfl) fun e e' h he => ?_
  subst h
  split
  · exact he.of_same rfl rfl
  · exact he

/-- Names in lower case are as many as before. -/
theorem FieldCase.correctedEntity_tidy (he : e.Tidy) : (correctedEntity e).Tidy := by
  constructor
  · have hnames : (correctedEntity e).indices.map (·.name) = e.indices.map (·.name) := by
      simp [correctedEntity, lowered, following]
    exact hnames ▸ he.indices
  · intro key' hkey'
    obtain ⟨key, hkey, rfl⟩ := List.mem_map.mp hkey'
    simpa using he.keys key hkey

namespace Pass

theorem completeKeys_tidy {warnings : List Warning} (hnodup : m.entityNames.Nodup)
    (hm : m.All Tidy) (h : Ends (completeKeys options) m warnings m') : m'.All Tidy := by
  obtain ⟨m₁, m₂, m₃, hkeys, hdisc, -, hlabels, hrelocate⟩ := completeKeys_steps h
  have hnodup₁ := (Hierarchy.propagateKeys_ok hkeys).2.nodup Entity.isChange_gains hnodup
  have hm₁ := Hierarchy.propagateKeys_tidy hm hkeys
  have hm₂ : m₂.All Tidy := by
    rcases hdisc with ⟨_, hdisc⟩ | ⟨_, _, rfl⟩
    · intro e' he'
      obtain ⟨e, he, -, hdisc⟩ := Hierarchy.addDiscriminators_mem hnodup₁ hdisc he'
      exact hdisc.tidy (hm₁ e he)
    · exact hm₁
  have hm₃ := hm₂.evolves (Keys.assignLabels_relabels hlabels) fun e e' h he =>
    he.of_same (congrArg Entity.indices h :) (congrArg Entity.keys h :)
  exact Link.relocate_tidy hm₃ hrelocate

theorem completeReferences_tidy (hm : m.All Tidy) (h : Ends completeReferences m () m') :
    m'.All Tidy := by
  obtain ⟨m₁, m₂, m₃, hfirst, hcase, hsecond, heq⟩ := completeReferences_steps h
  have hm₁ := hm.evolves (Reference.resolveAll_outline hfirst) fun _ _ => SameOutline.tidy
  have hcorrected : Evolves (fun e e' => e' = FieldCase.correctedEntity e) [] m₁ m₂ :=
    .map (congrArg Model.entities (FieldCase.correct_ok hcase)) fun _ _ => rfl
  have hm₂ := hm₁.evolves hcorrected fun e e' h he => h ▸ FieldCase.correctedEntity_tidy he
  exact (hm₂.evolves (Reference.resolveAll_outline hsecond) fun _ _ => SameOutline.tidy).of_eq heq

/-- Up to references, entities stay sound. -/
theorem completeReferences_sound {m₁ m₂ : Model} {warnings : List Warning}
    (hnodup : m.entityNames.Nodup) (hm : m.All Sound)
    (hnames : Ends (completeNames dialect) m () m₁)
    (hkeys : Ends (completeKeys options) m₁ warnings m₂)
    (hreferences : Ends completeReferences m₂ () m') : m'.All Sound := by
  have hout := Link.assignNames_outline (completeNames_steps hnames)
  have hnodup₁ := hout.nodup Entity.isChange_sameOutline hnodup
  have hm₁ := hm.evolves hout fun _ _ => SameOutline.sound
  have hm₂ := completeKeys_tidy hnodup₁ (hm₁.imp fun _ h => h.toTidy) hkeys
  have hdistinct₂ := completeKeys_distinct hnodup₁ (fun e he => (hm₁ e he).fields) hkeys
  exact fun e he => { completeReferences_tidy hm₂ hreferences e he with
    fields := completeReferences_distinct hdistinct₂ hreferences e he }

end Pass

/-! ### Link entities -/

namespace Link

theorem withColumns_sound {columns : List Field} (he : e.Sound) (hcolumns : columns ≠ [])
    (h : withColumns columns e = .ok e') : e'.Sound := by
  have hdistinct := withColumns_distinct he.fields h
  rw [withColumns_ok h] at hdistinct ⊢
  refine ⟨⟨he.indices, fun key hkey => ?_⟩, hdistinct⟩
  rcases List.mem_append.mp hkey with hkey | hkey
  · exact he.keys key hkey
  · rw [List.mem_singleton.mp hkey]
    simpa using hcolumns

theorem plainEntity_sound (owner : Entity) (field : String) :
    (plainEntity owner field name).Sound :=
  ⟨⟨.nil, by simp [plainEntity]⟩, by simp [Entity.DistinctFields, plainEntity]⟩

theorem synthesize_sound {made : List String} (hm : m.All Sound)
    (h : Ends (synthesize dialect) m made m') : m'.All Sound := by
  refine synthesize_rel (fun _ m m' => m.All Sound → m'.All Sound) (fun _ => id)
    (fun h₁ h₂ => h₂ ∘ h₁) (fun hbacked hm => ?_) h hm
  cases hbacked with
  | reused _ _ _ _ _ hreuse =>
    exact hm.evolves (reuse_evolves hreuse) fun _ _ h => h.sameOutline.sound
  | made _ _ _ _ hmake hadd =>
    obtain ⟨_, _, -, -, -, hcolumns⟩ := make_ok hmake
    exact hm.addEntity (withColumns_sound (plainEntity_sound _ _) (by simp) hcolumns) hadd

end Link

theorem Pass.completeLinks_sound (hm : m.All Sound) (h : Ends (completeLinks dialect) m () m') :
    m'.All Sound := by
  obtain ⟨made, m₁, hmade, hresolve⟩ := completeLinks_steps h
  exact (Link.synthesize_sound hm hmade).evolves (Reference.resolveEntities_outline hresolve)
    fun _ _ => SameOutline.sound

/-! ### Identity roots -/

namespace Model

theorem mem_placeKey {k key : Key} {keys : List Key} (h : k ∈ placeKey key keys) :
    k = key ∨ k ∈ keys := by
  unfold placeKey at h
  split at h
  · exact .inr h
  · exact (List.mem_append.mp h).symm.imp_left List.mem_singleton.mp

/-- Every visible key is a key of an entity of the lineage. -/
theorem mem_allKeys {k : Key} (h : k ∈ m.allKeys name) : ∃ e ∈ m.lineage name, k ∈ e.keys := by
  refine List.foldlRecOn _ _ (motive := fun keys => k ∈ keys → ∃ e ∈ m.lineage name, k ∈ e.keys)
    (by simp) (fun keys hkeys key hkey h => ?_) h
  rcases mem_placeKey h with rfl | h
  · exact List.mem_flatMap.mp hkey
  · exact hkeys h

end Model

namespace Entity

theorem insertField_distinct {f : Field} {position : Nat} (he : e.DistinctFields)
    (h : e.insertField position f = .ok e') : e'.DistinctFields := by
  obtain ⟨hnew, rfl⟩ := Link.insertField_ok h
  have hconcat : { e with fields := e.fields ++ [f] }.DistinctFields := he.concat rfl hnew
  have hbehind : (e.fields.map (·.name) ++ [f.name]).Nodup := by
    simpa [DistinctFields] using hconcat
  unfold DistinctFields at he ⊢
  rw [← List.take_append_drop position e.fields, List.map_append] at hbehind
  rw [List.map_append, List.map_cons, List.nodup_middle]
  rw [List.nodup_append_comm] at hbehind
  exact hbehind

end Entity

namespace Hierarchy

theorem identityOf_sound {root identity : Entity} (hm : m.All Sound)
    (h : identityOf m root = .ok identity) : identity.Sound := by
  have hplain : (plainIdentity root).Sound :=
    ⟨⟨.nil, by simp [plainIdentity, Entity.named]⟩,
      by simp [Entity.DistinctFields, plainIdentity, Entity.named]⟩
  obtain ⟨e₁, hfields, h⟩ := Except.bind_ok h
  have he₁ : e₁.Sound :=
    { hplain.toTidy.of_same (by rw [Link.addFields_ok hfields]) (by rw [Link.addFields_ok hfields])
      with fields := Entity.addFields_distinct hplain.fields hfields }
  obtain ⟨e₂, h, he₂⟩ : ∃ e₂ : Entity,
      e₂.insertField 0 { discriminator (members m root.name) with readonly := false } =
        .ok identity ∧ e₂.Sound := by
    dsimp only at h
    split at h
    · next key hkey =>
      obtain ⟨e₂, hadd, h⟩ := Except.bind_ok h
      obtain ⟨e, he, hkey⟩ := Model.mem_allKeys (List.mem_of_mem_head? hkey)
      have hnonempty := (hm e (Model.entity?_mem (Model.mem_lineage.mp he).1)).keys key hkey
      refine ⟨e₂, h, { Entity.addKey_tidy he₁.toTidy (by exact hnonempty) hadd with fields := ?_ }⟩
      rw [(Link.addKey_ok hadd).2]
      exact he₁.fields
    · exact ⟨e₁, h, he₁⟩
  refine { he₂.toTidy.of_same ?_ ?_ with fields := Entity.insertField_distinct he₂.fields h }
  all_goals rw [(Link.insertField_ok h).2]

theorem addIdentity_sound (hm : m.All Sound) (h : addIdentity name m = .ok m') : m'.All Sound := by
  unfold addIdentity at h
  split at h
  · cases h
    exact hm
  · obtain ⟨identity, hidentity, h⟩ := Except.bind_ok h
    obtain ⟨m₁, hadd, h⟩ := Except.bind_ok h
    cases h
    have hidentity := identityOf_sound hm (Except.mapError_ok (g := Failure.duplicate) hidentity)
    have hm₁ := hm.addEntity hidentity (Except.mapError_ok (g := Failure.duplicate) hadd)
    exact hm₁.changeEntity fun e _ he => { he.toTidy.of_same rfl rfl with fields := he.fields }

/-! ### Key fields -/

/-- The entity has a field of each name behind which copies are made. -/
theorem copyKeyFieldEach_ok : ∀ {names : List String} {copies copies' : List Field},
    names.foldlM (copyKeyField m e) copies = .ok copies' → e.Fresh copies →
    e.Fresh copies' ∧ copies ⊆ copies' ∧
      ∀ name ∈ names, { e with fields := e.fields ++ copies' }.hasField name = true
  | [], copies, _, h, hfresh => by
    cases h
    exact ⟨hfresh, List.Subset.refl _, by simp⟩
  | name :: rest, copies, copies', h, hfresh => by
    obtain ⟨copies₁, hstep, h⟩ := Except.bind_ok h
    obtain ⟨hfresh₁, hsubset₁, hhas⟩ : e.Fresh copies₁ ∧ copies ⊆ copies₁ ∧
        (e.hasField name = true ∨ ∃ f ∈ copies₁, f.name = name) := by
      rcases copyKeyField_ok hstep with ⟨hthere, rfl⟩ | ⟨hnew, f, -, hname, rfl⟩
      · exact ⟨hfresh, List.Subset.refl _, by simpa using hthere⟩
      · exact ⟨hfresh.concat hname hnew, List.subset_append_left _ _,
          .inr ⟨_, List.mem_append_right _ (List.mem_singleton_self _), hname⟩⟩
    obtain ⟨hfresh', hsubset, hrest⟩ := copyKeyFieldEach_ok h hfresh₁
    refine ⟨hfresh', List.Subset.trans hsubset₁ hsubset, List.forall_mem_cons.mpr ⟨?_, hrest⟩⟩
    rw [Entity.hasField_iff, List.map_append, List.mem_append]
    rcases hhas with hown | ⟨f, hf, rfl⟩
    · exact .inl (Entity.hasField_iff.mp hown)
    · exact .inr (List.mem_map_of_mem (hsubset hf))

/-- The entity of this name owns its keys then; the others are as they were. -/
theorem copyKeyFieldsOf_owns (hnodup : m.entityNames.Nodup)
    (h : copyKeyFieldsOf name m = .ok m') (he' : e' ∈ m'.entities) :
    (e' ∈ m.entities ∧ e'.name ≠ name) ∨ (∃ e ∈ m.entities, e.Sound → e'.Sound) ∧ e'.OwnsKeys := by
  rcases copyKeyFieldsOf_ok h with ⟨hnone, rfl⟩ | ⟨e, copies, he, hcopies, rfl⟩
  · refine .inl ⟨he', fun hname => ?_⟩
    rw [← hname, Model.entity?_of_mem hnodup he'] at hnone
    cases hnone
  · rcases Model.mem_changeEntity hnodup he' with ⟨x, hx, rfl⟩ | hother
    · rw [he] at hx
      cases hx
      obtain ⟨hfresh, -, howns⟩ := copyKeyFieldEach_ok hcopies e.fresh_nil
      refine .inr ⟨⟨e, Model.entity?_mem he, fun hsound => ?_⟩, fun key hkey name hname => ?_⟩
      · exact { hsound.toTidy.of_same rfl rfl with fields := hfresh.behind hsound.fields }
      · exact howns name (List.mem_flatMap.mpr ⟨key, hkey, hname⟩)
    · exact .inl hother

/-- The names whose turn is still to come are those of entities that may lack key fields. -/
theorem copyEach_sound {u : Unit} : ∀ {names : List String} {m : Model}, m.entityNames.Nodup →
    m.All Sound → m.All (fun e => e.name ∉ names → e.OwnsKeys) →
    Ends (names.forM fun name => Pass.step (copyKeyFieldsOf name)) m u m' →
    m'.All Sound ∧ m'.All OwnsKeys
  | [], m, _, hm, howns, h => by
    cases h
    exact ⟨hm, howns.imp fun _ h => h List.not_mem_nil⟩
  | name :: rest, m, hnodup, hm, howns, h => by
    obtain ⟨m₁, hstep, h⟩ := Pass.step_bind h
    obtain ⟨added, hgrows⟩ := (copyKeyFieldsOf_extension hstep).grows
    refine copyEach_sound (hgrows.nodup Entity.isChange_grows hnodup) (fun e' he' => ?_)
      (fun e' he' hname => ?_) h
    · rcases copyKeyFieldsOf_owns hnodup hstep he' with ⟨he, _⟩ | ⟨⟨e, he, hsound⟩, _⟩
      · exact hm e' he
      · exact hsound (hm e he)
    · rcases copyKeyFieldsOf_owns hnodup hstep he' with ⟨he, hne⟩ | ⟨_, howned⟩
      · exact howns e' he (List.not_mem_cons_of_ne_of_not_mem hne hname)
      · exact howned

end Hierarchy

/-- In the end every key is over own fields. -/
theorem Pass.completeTables_sound {u : Unit} (hnodup : m.entityNames.Nodup) (hm : m.All Sound)
    (h : Ends (completeTables options) m u m') : m'.All Sound ∧ m'.All OwnsKeys := by
  obtain ⟨m₁, hidentities, hcopies, -⟩ := completeTables_steps h
  have hbearing := Reference.propagateLabels_bearing m
  have hlabelled := hm.evolves hbearing fun _ _ h => h.sameOutline.sound
  obtain ⟨_, hgrows⟩ :=
    (Hierarchy.propagateDecorators_extension (Reference.propagateLabels m)).grows
  have hnodup := hgrows.nodup Entity.isChange_grows
    (hbearing.nodup Entity.isChange_sameBearing hnodup)
  have hdecorated : (Hierarchy.propagateDecorators (Reference.propagateLabels m)).All Sound :=
    List.foldlRecOn _ _ hlabelled fun m hm _ _ =>
      hm.changeEntity fun e _ he => { he.toTidy.of_same rfl rfl with fields := he.fields }
  obtain ⟨hnodup₁, hm₁⟩ : m₁.entityNames.Nodup ∧ m₁.All Sound := by
    rcases hidentities with ⟨-, hidentities⟩ | ⟨-, rfl⟩
    · obtain ⟨_, hroots⟩ := (Hierarchy.addIdentities_extension hnodup hidentities).grows
      refine ⟨hroots.nodup Entity.isChange_grows hnodup, ?_⟩
      exact hidentities.get_bind.forM_keeps (fun m => m.All Sound)
        (fun _ _ _ _ hstep hm => Hierarchy.addIdentity_sound hm (Pass.step_ends hstep)) hdecorated
    · exact ⟨hnodup, hdecorated⟩
  refine Hierarchy.copyEach_sound hnodup₁ hm₁ (fun e he hname => ?_) hcopies.get_bind
  exact absurd (List.mem_map_of_mem he) hname

end EntitySchema
