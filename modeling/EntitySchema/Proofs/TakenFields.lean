import EntitySchema.Proofs.Relocation

/-! Fields that an entity takes from those above it. They are references under the names of
key fields, where the name is the only one in the primary key of an interface or stands
in a key of the entity from then on, and many-to-many fields of interfaces. -/

namespace EntitySchema

open Model (Evolves)
open Entity (Gains IsChange Relocates SameOutline SameStanding isChange_gains isChange_relocates
  isChange_sameStanding)

variable {m m' m₁ : Model} {a name field : String} {e e' : Entity} {f : Field} {u : Unit}

namespace Entity

/-- The same entity as far as the hierarchy and its keys are concerned. -/
structure SameKeys (e e' : Entity) : Prop extends SameStanding e e' where
  keys : e'.keys = e.keys

theorem isChange_sameKeys : IsChange SameKeys where
  refl e := { isChange_sameStanding.refl e with keys := rfl }
  trans h₁ h₂ := { isChange_sameStanding.trans h₁.toSameStanding h₂.toSameStanding with
    keys := h₂.keys.trans h₁.keys }
  name h := h.name

/-- A key of the entity names the field. -/
def InKey (e : Entity) (field : String) : Prop := ∃ key ∈ e.keys, field ∈ key.fields

instance : Decidable (e.InKey field) := inferInstanceAs (Decidable (∃ key ∈ e.keys, _))

end Entity

open Entity (SameKeys isChange_sameKeys)

/-! ### What interfaces offer -/

namespace Model

/-- An interface that the entity implements has the field of this name for its primary key. -/
def InterfaceKey (m : Model) (entity field : String) : Prop :=
  ∃ i ∈ m.ownInterfaces entity, (m.primaryKey? i.name).map (·.fields) = some [field]

/-- An interface that the entity implements has a many-to-many field of this name. -/
def InterfaceLink (m : Model) (entity field : String) : Prop :=
  ∃ i ∈ m.ownInterfaces entity, ∃ f ∈ i.fields, f.isMref = true ∧ f.name = field

instance : Decidable (m.InterfaceKey a field) :=
  inferInstanceAs (Decidable (∃ i ∈ m.ownInterfaces a, _))

instance : Decidable (m.InterfaceLink a field) :=
  inferInstanceAs (Decidable (∃ i ∈ m.ownInterfaces a, ∃ f ∈ i.fields, _ ∧ _))

/-- Interfaces stay interfaces, and were some before. -/
theorem mem_ownInterfaces_back {R : Entity → Entity → Prop} (hR : IsChange R)
    (hstanding : ∀ e e', R e e' → SameStanding e e') (h : Evolves R [] m m') {i' : Entity}
    (hi : i' ∈ m'.ownInterfaces a) : ∃ i ∈ m.ownInterfaces a, R i i' := by
  obtain ⟨hfound, hne, hpath⟩ := mem_ownInterfaces.mp hi
  obtain ⟨i, hi, hsame⟩ := h.entity?_back hR hfound (by simp)
  have hname := hR.name hsame
  rw [implements_standing (h.mono hstanding)] at hpath
  exact ⟨i, mem_ownInterfaces.mpr ⟨hname ▸ hi, hname ▸ hne, hname ▸ hpath⟩, hsame⟩

theorem primaryKey?_sameKeys (hm : m.Closed) (h : Evolves SameKeys [] m m')
    (hname : name ∈ m.entityNames) : m'.primaryKey? name = m.primaryKey? name := by
  have hlineage := lineage_change isChange_sameKeys (fun _ _ h => h.toSameStanding) hm h hname
  unfold primaryKey? allKeys
  rw [flatMap_eq_of_forall₂ (R := SameKeys) (fun _ _ h => h.keys) hlineage]

theorem InterfaceKey.back (hm : m.Closed) (h : Evolves SameKeys [] m m')
    (hkey : m'.InterfaceKey a field) : m.InterfaceKey a field := by
  obtain ⟨i', hi', hkey⟩ := hkey
  obtain ⟨i, hi, hsame⟩ :=
    mem_ownInterfaces_back isChange_sameKeys (fun _ _ h => h.toSameStanding) h hi'
  have hfound := mem_entityNames.mpr ⟨i, (mem_ownInterfaces.mp hi).1⟩
  refine ⟨i, hi, ?_⟩
  rwa [hsame.name, primaryKey?_sameKeys hm h hfound] at hkey

end Model

/-! ### Keys of interfaces and parents -/

namespace Entity

/-- The entity has more fields and keys. Each field that it has got is a reference to a key
field, named by the primary key of an interface or by a key of the entity, and its keys
name what visible keys name. -/
structure TakesKeys (m : Model) (e e' : Entity) : Prop where
  gains : Gains e e'
  taken : ∀ f ∈ e'.fields, f ∈ e.fields ∨ f.isMref = false ∧ f.origin = .inheritedKey ∧
    (m.InterfaceKey e.name f.name ∨ e'.InKey f.name)
  keyed : ∀ field, e'.InKey field → e.InKey field ∨ m.Keyed e.name field

theorem Gains.inKey (h : Gains e e') (hkey : e.InKey field) : e'.InKey field := by
  obtain ⟨key, hkey, hfield⟩ := hkey
  exact ⟨key, h.grows.keys hkey, hfield⟩

theorem Gains.own (h : Gains e e') (hf : f ∈ e.fields) : f ∈ e'.fields := by
  obtain ⟨front, back, keys, rfl⟩ := h
  simp [hf]

theorem isChange_takesKeys (m : Model) : IsChange (TakesKeys m) where
  refl e := ⟨isChange_gains.refl e, fun _ hf => .inl hf, fun _ => .inl⟩
  trans := by
    rintro e₁ e₂ e₃ ⟨hgains₁, htaken₁, hkeyed₁⟩ ⟨hgains₂, htaken₂, hkeyed₂⟩
    rw [isChange_gains.name hgains₁] at htaken₂ hkeyed₂
    refine ⟨isChange_gains.trans hgains₁ hgains₂, fun f hf => ?_, fun field hkey =>
      (hkeyed₂ field hkey).elim (hkeyed₁ field) .inr⟩
    rcases htaken₂ f hf with hf | hnew
    · refine (htaken₁ f hf).imp_right fun ⟨hmref, horigin, hnamed⟩ => ⟨hmref, horigin, ?_⟩
      exact hnamed.imp_right hgains₂.inKey
    · exact .inr hnew
  name h := isChange_gains.name h.gains

end Entity

open Entity (TakesKeys isChange_takesKeys)

/-- What visible keys name while keys are copied, they named before. -/
theorem Model.Keyed.back (hm : m.Layered) (h : Evolves (TakesKeys m) [] m m₁)
    (hkey : m₁.Keyed a field) : m.Keyed a field := by
  obtain ⟨e₁, he₁, hkey⟩ := keyed_iff.mp hkey
  obtain ⟨e, he, -, htakes⟩ := mem_lineage_change_back (isChange_takesKeys m)
    (fun _ _ h => h.gains.sameStanding) h he₁
  rcases htakes.keyed field hkey with hown | hkeyed
  · exact keyed_iff.mpr ⟨e, he, hown⟩
  · exact hkeyed.inherits hm (mem_lineage.mp he).2

namespace Hierarchy

theorem interfaceKeyCopies_taken : ∀ f ∈ interfaceKeyCopies m e,
    f.isMref = false ∧ f.origin = .inheritedKey ∧ m.InterfaceKey e.name f.name := by
  unfold interfaceKeyCopies
  refine List.foldlRecOn _ _ (motive := fun copies : List Field => ∀ f ∈ copies,
    f.isMref = false ∧ f.origin = .inheritedKey ∧ m.InterfaceKey e.name f.name) (by simp)
    fun copies hcopies interface hinterface => ?_
  split
  · exact hcopies
  · next f hf =>
    split
    · exact hcopies
    · intro g hg
      rcases List.mem_append.mp hg with hg | hg
      · exact hcopies g hg
      · obtain rfl := List.mem_singleton.mp hg
        unfold singleKeyField? at hf
        split at hf
        · next single hsingle =>
          have hname : f.name = single := by simpa using List.find?_some hf
          exact ⟨rfl, rfl, interface, hinterface, hname ▸ hsingle⟩
        · cases hf

theorem copyInterfaceKeys_takes (name : String) (hm : m.Closed) (hsame : Evolves SameKeys [] m m₁) :
    Evolves (TakesKeys m) [] m₁ (copyInterfaceKeys name m₁) ∧
      Evolves SameKeys [] m₁ (copyInterfaceKeys name m₁) := by
  unfold copyInterfaceKeys
  split
  · exact ⟨.refl (isChange_takesKeys m) m₁, .refl isChange_sameKeys m₁⟩
  · next e he =>
    refine ⟨.changeEntity_at (isChange_takesKeys m) he ?_,
      .changeEntity_at isChange_sameKeys he ⟨⟨rfl, rfl, rfl, rfl⟩, rfl⟩⟩
    refine ⟨⟨interfaceKeyCopies m₁ e, [], [], by simp⟩, fun f hf => ?_, fun _ => .inl⟩
    rcases List.mem_append.mp hf with hf | hf
    · obtain ⟨hmref, horigin, hkey⟩ := interfaceKeyCopies_taken f hf
      exact .inr ⟨hmref, horigin, .inl (hkey.back hm hsame)⟩
    · exact .inl hf

/-- The copies of a parent's key have the names of its fields. -/
theorem addParentKeyFields_taken {parent : String} {fields : List Field} :
    ∀ f ∈ (fields.foldl (addParentKeyField parent) e).fields, f ∈ e.fields ∨
      f.isMref = false ∧ f.origin = .inheritedKey ∧ f.name ∈ fields.map (·.name) := by
  refine List.foldlRecOn _ _ (motive := fun e' : Entity => ∀ f ∈ e'.fields, f ∈ e.fields ∨
    f.isMref = false ∧ f.origin = .inheritedKey ∧ f.name ∈ fields.map (·.name))
    (fun f hf => .inl hf) fun e' he' f hf => ?_
  unfold addParentKeyField
  split
  · exact he'
  · intro g hg
    rcases List.mem_append.mp hg with hg | hg
    · exact he' g hg
    · obtain rfl := List.mem_singleton.mp hg
      exact .inr ⟨rfl, rfl, List.mem_map.mpr ⟨f, hf, rfl⟩⟩

theorem addParentKeyFields_keys {parent : String} {fields : List Field} :
    (fields.foldl (addParentKeyField parent) e).keys = e.keys := by
  refine List.foldlRecOn _ _ (motive := fun e' : Entity => e'.keys = e.keys) rfl
    fun e' he' f _ => ?_
  unfold addParentKeyField
  split <;> exact he'

theorem leadWithKey_fields (fields : List String) (e : Entity) :
    (leadWithKey fields e).fields = e.fields := by
  unfold leadWithKey
  split <;> rfl

theorem inKey_leadWithKey {fields : List String} :
    (leadWithKey fields e).InKey field ↔ e.InKey field ∨ field ∈ fields := by
  unfold leadWithKey
  split
  · next hthere =>
    obtain ⟨key, hkey, heq⟩ := List.any_eq_true.mp hthere
    have heq : key.fields = fields := by simpa using heq
    exact ⟨.inl, fun h => h.elim id fun hfield => ⟨key, hkey, heq ▸ hfield⟩⟩
  · simp [Entity.InKey, or_comm]

/-- A parent's primary key is visible on the entity that it is copied to. -/
theorem copyParentKey_takes {parent : String} (hm : m.Layered) (hparent : m.Extends name parent)
    (hm₁ : Evolves (TakesKeys m) [] m m₁) (h : copyParentKey name parent m₁ = .ok m') :
    Evolves (TakesKeys m) [] m₁ m' := by
  unfold copyParentKey at h
  split at h
  · cases h
  · cases h
    refine .changeEntity (isChange_takesKeys m) fun e he => ?_
    refine {
      gains := isChange_gains.trans (addParentKeyFields_gains parent _ e) (leadWithKey_gains _ _)
      taken := fun f hf => ?_
      keyed := fun field hkey => ?_ }
    · rw [leadWithKey_fields] at hf
      refine (addParentKeyFields_taken f hf).imp_right fun ⟨hmref, horigin, hname⟩ => ?_
      exact ⟨hmref, horigin, .inr (inKey_leadWithKey.mpr (.inr hname))⟩
    · refine (inKey_leadWithKey.mp hkey).imp (fun hkey => ?_) fun hfield => ?_
      · unfold Entity.InKey at hkey ⊢
        rwa [addParentKeyFields_keys] at hkey
      · obtain ⟨f, hf, rfl⟩ := List.mem_map.mp hfield
        have hkeyed : m.Keyed parent f.name := (Model.mem_primaryKeyFields hf).1.back hm hm₁
        rw [Model.entity?_name he]
        exact hkeyed.inherits hm ⟨parent, .single hparent, .refl⟩

/-- While keys of interfaces are copied no entity gets another key, so that the primary keys
of interfaces are those of the model before. -/
theorem propagateKeys_takes (h : Ends propagateKeys m u m') : Evolves (TakesKeys m) [] m m' := by
  have hcheck := (propagateKeys_ok h).1
  have hclosed := Model.closed_of_check hcheck
  unfold propagateKeys at h
  obtain ⟨_, -, h⟩ := Pass.check_bind h
  obtain ⟨_, m₁, hinterfaces, h⟩ := h.get_bind.bind
  obtain ⟨hm₁, -⟩ := hinterfaces.forM_keeps
    (fun m' => Evolves (TakesKeys m) [] m m' ∧ Evolves SameKeys [] m m')
    (fun name _ m₂ m₃ hstep ⟨htakes, hsame⟩ => by
      obtain rfl := Pass.change_ends hstep
      obtain ⟨htakes', hsame'⟩ := copyInterfaceKeys_takes name hclosed hsame
      exact ⟨htakes.trans_nil (isChange_takesKeys m) htakes',
        hsame.trans_nil isChange_sameKeys hsame'⟩)
    ⟨.refl (isChange_takesKeys m) m, .refl isChange_sameKeys m⟩
  refine h.get_bind.forM_keeps (Evolves (TakesKeys m) [] m) (fun name _ m₂ m₃ hstep hm₂ => ?_) hm₁
  refine hstep.get_bind.forM_keeps (Evolves (TakesKeys m) [] m)
    (fun parent hparent m₄ m₅ hstep hm₄ => ?_) hm₂
  have hparent : m.Extends name parent := by
    rwa [← Model.extends_standing (hm₂.mono fun _ _ h => h.gains.sameStanding)]
  exact hm₄.trans_nil (isChange_takesKeys m)
    (copyParentKey_takes (Model.layered_of_check hcheck) hparent hm₄ (Pass.step_ends hstep))

end Hierarchy

/-! ### Fields of interfaces -/

namespace Entity

/-- Fields have moved to the entity from interfaces that it implements, or away from it. -/
structure Receives (m : Model) (e e' : Entity) : Prop extends Relocates e e' where
  indices : e'.indices = e.indices
  received : ∀ f ∈ e'.fields, f ∈ e.fields ∨ m.InterfaceLink e.name f.name

theorem isChange_receives (m : Model) : IsChange (Receives m) where
  refl e := { isChange_relocates.refl e with indices := rfl, received := fun _ hf => .inl hf }
  trans h₁ h₂ := { isChange_relocates.trans h₁.toRelocates h₂.toRelocates with
    indices := h₂.indices.trans h₁.indices
    received := fun f hf => (h₂.received f hf).elim (h₁.received f)
      fun hlink => .inr (h₁.name ▸ hlink) }
  name h := h.name

/-- Abstract entities stay as they are. -/
structure FixesAbstract (e e' : Entity) : Prop extends SameStanding e e' where
  fixed : e.isAbstract = true → e' = e

theorem isChange_fixesAbstract : IsChange FixesAbstract where
  refl e := { isChange_sameStanding.refl e with fixed := fun _ => rfl }
  trans h₁ h₂ := { isChange_sameStanding.trans h₁.toSameStanding h₂.toSameStanding with
    fixed := fun habstract =>
      (h₂.fixed (h₁.isAbstract.trans habstract)).trans (h₁.fixed habstract) }
  name h := h.name

end Entity

open Entity (Receives FixesAbstract isChange_receives isChange_fixesAbstract)

/-- While interfaces stay as they are, what they offer was offered before. -/
theorem Model.InterfaceLink.back (hm : m.Layered) (h : Evolves FixesAbstract [] m m')
    (hlink : m'.InterfaceLink a field) : m.InterfaceLink a field := by
  obtain ⟨i', hi', f, hf, hmref, hname⟩ := hlink
  obtain ⟨i, hi, hsame⟩ :=
    mem_ownInterfaces_back isChange_fixesAbstract (fun _ _ h => h.toSameStanding) h hi'
  obtain ⟨hfound, -, hpath⟩ := mem_ownInterfaces.mp hi
  obtain ⟨x, hx, habstract⟩ := hm.interface_of_path hpath
  rw [hfound] at hx
  cases hx
  rw [hsame.fixed habstract] at hf
  exact ⟨i, hi, f, hf, hmref, hname⟩

namespace Link

variable {dialect : Dialect}

theorem moveAll_received {taken : List String} {moved : Moved}
    (h : moveAll m dialect e taken = .ok moved) :
    ∀ f ∈ moved.copies, m.InterfaceLink e.name f.name := by
  refine Except.foldlM_ok (fun moved : Moved => ∀ f ∈ moved.copies, m.InterfaceLink e.name f.name)
    (fun f hf moved moved' hmove hmoved f' hf' => ?_) h (by simp)
  rcases move_moved hmove with hsame | ⟨hmref, target, link, hcopy⟩
  · exact hmoved f' (hsame ▸ hf')
  · rw [hcopy] at hf'
    rcases List.mem_append.mp hf' with hf' | hf'
    · exact hmoved f' hf'
    · obtain rfl := List.mem_singleton.mp hf'
      obtain ⟨i, hi, hf⟩ := List.mem_flatMap.mp hf
      exact ⟨i, hi, f, hf, hmref, rfl⟩

/-- In a model where interfaces are as they were, an entity with a table receives what they
offered before. -/
theorem moveTo_receives {taken taken' : List String} (hm : m.Layered)
    (hsame : Evolves FixesAbstract [] m m₁) (h : Ends (moveTo dialect taken name) m₁ taken' m') :
    Evolves (Receives m) [] m₁ m' ∧ Evolves FixesAbstract [] m₁ m' := by
  rcases moveTo_cases h with ⟨rfl, -⟩ | ⟨e, moved, he, hconcrete, hmoved, -, rfl⟩
  · exact ⟨.refl (isChange_receives m) m', .refl isChange_fixesAbstract m'⟩
  · refine ⟨.changeEntity_at (isChange_receives m) he ?_,
      .changeEntity_at isChange_fixesAbstract he ?_⟩
    · exact {
        name := rfl
        isAbstract := rfl
        parents := rfl
        implements := rfl
        keys := rfl
        indices := rfl
        fields := fun f hf => (List.mem_append.mp hf).imp_right fun hf => by
          obtain ⟨_, _, _, _, target, link, rfl⟩ := moveAll_moved hmoved f hf
          exact ⟨rfl, rfl⟩
        kept := fun f hf => .inl (List.mem_append_left _ hf)
        received := fun f hf => (List.mem_append.mp hf).imp_right fun hf =>
          (moveAll_received hmoved f hf).back hm hsame }
    · refine { name := rfl, isAbstract := rfl, parents := rfl, implements := rfl,
               fixed := fun habstract => ?_ }
      rw [hconcrete] at habstract
      cases habstract

theorem relocate_receives (hm : m.Layered) (h : Ends (relocate dialect) m u m') :
    Evolves (Receives m) [] m m' := by
  obtain ⟨_, moved, hloop, h⟩ := h.get_bind.bind
  obtain rfl := Pass.change_ends h
  obtain ⟨hmoved, -⟩ := hloop.foldlM_keeps
    (fun _ m' => Evolves (Receives m) [] m m' ∧ Evolves FixesAbstract [] m m')
    (fun name _ _ _ m₁ m₂ hstep ⟨hreceives, hsame⟩ => by
      obtain ⟨hreceives', hsame'⟩ := moveTo_receives hm hsame hstep
      exact ⟨hreceives.trans_nil (isChange_receives m) hreceives',
        hsame.trans_nil isChange_fixesAbstract hsame'⟩)
    ⟨.refl (isChange_receives m) m, .refl isChange_fixesAbstract m⟩
  refine hmoved.trans_nil (isChange_receives m) (.map rfl fun e _ => ?_)
  refine { Entity.Strips.relocates (e := e) rfl with
    indices := ?_, received := fun f hf => .inl ?_ }
  · split <;> rfl
  · split at hf
    · exact List.mem_of_mem_filter hf
    · exact hf

end Link

end EntitySchema
