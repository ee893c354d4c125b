import EntitySchema.Proofs.TakenFields
import EntitySchema.Proofs.TopDown

/-! Copies of keys. What an entity gets when keys are copied are hidden references, under
their own names, to fields that a parent or an interface of it shows; so nobody comes to
see a name that was not visible on it before. -/

namespace EntitySchema

open Relation (ReflTransGen TransGen)
open Model (Evolves)
open Entity (Gains IsChange SameKeys SameStanding isChange_gains isChange_sameKeys
  isChange_sameStanding)

variable {m m' m₁ : Model} {a name field parent : String} {e e' : Entity} {f : Field}

/-! ### What is copied -/

/-- A hidden reference, through its own name and labelled by it, to a field that a parent or
an interface of the entity shows. -/
structure Field.IsKeyCopy (m : Model) (entity : String) (f : Field) : Prop where
  origin : f.origin = .inheritedKey
  hidden : f.hidden = true
  source : ∃ upper, (m.Extends entity upper ∨ TransGen m.Implements entity upper) ∧
    m.Sees upper f.name ∧
    f.type = .xref { entity := upper, field := some f.name, labels := [f.name] }

namespace Entity

/-- The entity with copies of keys around its fields, and more keys before its own. -/
def Copies (m : Model) (e e' : Entity) : Prop :=
  ∃ front back keys, e' = { e with fields := front ++ e.fields ++ back, keys := keys ++ e.keys } ∧
    ∀ f ∈ front ++ back, f.IsKeyCopy m e.name

theorem Copies.gains (h : Copies m e e') : Gains e e' := by
  obtain ⟨front, back, keys, rfl, -⟩ := h
  exact ⟨front, back, keys, rfl⟩

theorem isChange_copies (m : Model) : IsChange (Copies m) where
  refl _ := ⟨[], [], [], by simp⟩
  trans := by
    rintro _ _ _ ⟨front, back, keys, rfl, hcopies⟩ ⟨front', back', keys', rfl, hcopies'⟩
    refine ⟨front' ++ front, back ++ back', keys' ++ keys, by simp, fun f hf => ?_⟩
    rw [List.append_assoc, List.mem_append, ← List.append_assoc, List.mem_append] at hf
    rcases hf with hf | hf | hf
    · exact hcopies' f (List.mem_append_left _ hf)
    · exact hcopies f hf
    · exact hcopies' f (List.mem_append_right _ hf)
  name h := isChange_gains.name h.gains

theorem Copies.own_or_copy (h : Copies m e e') (hf : f ∈ e'.fields) :
    f ∈ e.fields ∨ f.IsKeyCopy m e.name := by
  obtain ⟨front, back, keys, rfl, hcopies⟩ := h
  simp only [List.mem_append] at hf hcopies
  rcases hf with (hf | hf) | hf
  · exact .inr (hcopies f (.inl hf))
  · exact .inl hf
  · exact .inr (hcopies f (.inr hf))

/-- The entity owns fields of these names and a key over them. -/
structure HoldsKey (e : Entity) (names : List String) : Prop where
  fields : ∀ field ∈ names, e.hasField field = true
  key : e.hasKey names = true

theorem Gains.hasField (h : Gains e e') (hfield : e.hasField field = true) :
    e'.hasField field = true := by
  obtain ⟨front, back, keys, rfl⟩ := h
  simp only [Entity.hasField, List.any_append, Bool.or_eq_true] at hfield ⊢
  exact .inl (.inr hfield)

theorem Gains.holdsKey {names : List String} (h : Gains e e') (hkey : e.HoldsKey names) :
    e'.HoldsKey names := by
  refine ⟨fun field hfield => h.hasField (hkey.fields field hfield), ?_⟩
  obtain ⟨front, back, keys, rfl⟩ := h
  simp only [hasKey, List.any_append, Bool.or_eq_true]
  exact .inr hkey.key

end Entity

open Entity (Copies HoldsKey isChange_copies)

/-! ### What is seen -/

namespace Model

theorem Sees.gains (h : Evolves Gains [] m m₁) (hsees : m.Sees a field) : m₁.Sees a field := by
  refine hsees.carry id (h.mono fun _ _ h => h.sameStanding) fun {name e e'} he he' f hf => ?_
  obtain ⟨x, hx, hgains⟩ := h.entity? isChange_gains he
  rw [he'] at hx
  cases hx
  exact ⟨f, hgains.own hf, rfl⟩

/-- Copies of keys have names that were visible before. -/
theorem sees_copies (hm : m.Layered) (h : Evolves (Copies m) [] m m₁) :
    m₁.Sees a field ↔ m.Sees a field := by
  refine ⟨fun hsees => ?_, Sees.gains (h.mono fun _ _ h => h.gains)⟩
  obtain ⟨e₁, he₁, f, hf, rfl⟩ := sees_iff.mp hsees
  obtain ⟨e, he, -, hcopies⟩ := mem_lineage_change_back (isChange_copies m)
    (fun _ _ h => h.gains.sameStanding) h he₁
  rcases hcopies.own_or_copy hf with hf | hcopy
  · exact sees_iff.mpr ⟨e, he, f, hf, rfl⟩
  · obtain ⟨upper, habove, hsees, -⟩ := hcopy.source
    have hinherits : m.Inherits e.name upper := habove.elim
      (fun h => ⟨upper, .single h, .refl⟩) fun h => ⟨e.name, .refl, h.to_reflTransGen⟩
    exact (hsees.inherits hm hinherits).inherits hm (mem_lineage.mp he).2

end Model

namespace Hierarchy

/-! ### Keys of interfaces -/

theorem singleKeyField?_some {interface : String}
    (hkey : (m.primaryKey? interface).map (·.fields) = some [field])
    (hsees : m.Sees interface field) : ∃ f, singleKeyField? m interface = some f ∧ f.name = field := by
  obtain ⟨f, hf⟩ := Model.sees_iff_visibleField?.mp hsees
  refine ⟨f, ?_, by simpa using List.find?_some hf⟩
  unfold singleKeyField?
  rw [hkey]
  exact hf

theorem sees_of_singleKeyField? {interface : String} (h : singleKeyField? m interface = some f) :
    (m.primaryKey? interface).map (·.fields) = some [f.name] ∧ m.Sees interface f.name := by
  unfold singleKeyField? at h
  split at h
  · next single hsingle =>
    have hname : f.name = single := by simpa using List.find?_some h
    exact ⟨hname ▸ hsingle, f, List.mem_of_find?_eq_some h, rfl⟩
  · cases h

/-- A copy is made of the key of an interface that the entity implements. -/
theorem interfaceKeyCopies_copies (m : Model) (e : Entity) :
    ∀ f ∈ interfaceKeyCopies m e, f.origin = .inheritedKey ∧ f.hidden = true ∧
      ∃ i ∈ m.ownInterfaces e.name, m.Sees i.name f.name ∧
        f.type = .xref { entity := i.name, field := some f.name, labels := [f.name] } := by
  unfold interfaceKeyCopies
  refine List.foldlRecOn _ _ (motive := fun copies : List Field => ∀ f ∈ copies,
    f.origin = .inheritedKey ∧ f.hidden = true ∧ ∃ i ∈ m.ownInterfaces e.name,
      m.Sees i.name f.name ∧
      f.type = .xref { entity := i.name, field := some f.name, labels := [f.name] })
    (by simp) fun copies hcopies i hi => ?_
  split
  · exact hcopies
  · next f hf =>
    split
    · exact hcopies
    · intro g hg
      rcases List.mem_append.mp hg with hg | hg
      · exact hcopies g hg
      · obtain rfl := List.mem_singleton.mp hg
        exact ⟨rfl, rfl, i, hi, (sees_of_singleKeyField? hf).2, rfl⟩

/-- What one item of a list brings about, and the others keep, holds after a fold. -/
theorem foldl_reaches {α β : Type} {step : β → α → β} (P : β → Prop) {x : α}
    (hreach : ∀ b, P (step b x)) (hkeep : ∀ b y, P b → P (step b y)) :
    ∀ {xs : List α} (b : β), x ∈ xs → P (xs.foldl step b)
  | y :: ys, b, hx => by
    rcases List.mem_cons.mp hx with rfl | hx
    · exact List.foldlRecOn ys step (hreach b) fun b hb y _ => hkeep b y hb
    · exact foldl_reaches P hreach hkeep (step b y) hx

/-- Of each key with one field, the entity or the copies have that field. -/
theorem interfaceKeyCopies_complete {i : Entity} (hi : i ∈ m.ownInterfaces e.name)
    (hf : singleKeyField? m i.name = some f) :
    e.hasField f.name = true ∨ (interfaceKeyCopies m e).any (·.name = f.name) = true := by
  unfold interfaceKeyCopies
  refine foldl_reaches (fun copies : List Field => e.hasField f.name = true ∨
    copies.any (·.name = f.name) = true) (fun copies => ?_) (fun copies j hcopies => ?_) [] hi
  · simp only [hf]
    split
    · next hthere => simpa using hthere
    · simp [Field.referenceCopy]
  · split
    · exact hcopies
    · split
      · exact hcopies
      · refine hcopies.imp_right fun hthere => ?_
        rw [List.any_append, hthere, Bool.true_or]

variable (hm : m.Layered) (h : Evolves (Copies m) [] m m₁)

include hm h in
theorem copyInterfaceKeys_copies (name : String) :
    Evolves (Copies m) [] m₁ (copyInterfaceKeys name m₁) := by
  unfold copyInterfaceKeys
  split
  · exact .refl (isChange_copies m) m₁
  · next e he =>
    refine .changeEntity_at (isChange_copies m) he ⟨interfaceKeyCopies m₁ e, [], [], by simp, ?_⟩
    intro f hf
    rw [List.append_nil] at hf
    obtain ⟨horigin, hhidden, i, hi, hsees, htype⟩ := interfaceKeyCopies_copies m₁ e f hf
    have hpath := (Model.mem_ownInterfaces.mp hi).2.2
    rw [Model.implements_standing (h.mono fun _ _ h => h.gains.sameStanding)] at hpath
    exact ⟨horigin, hhidden, i.name, .inr hpath, (Model.sees_copies hm h).mp hsees, htype⟩

/-- The entity owns the key field of an interface once the keys of interfaces are copied. -/
theorem copyInterfaceKeys_owns {i : Entity} (he : m₁.entity? name = some e)
    (hi : i ∈ m₁.ownInterfaces name) (hf : singleKeyField? m₁ i.name = some f) :
    Link.Owns (copyInterfaceKeys name m₁) name f.name := by
  unfold copyInterfaceKeys
  rw [he]
  obtain rfl := Model.entity?_name he
  refine ⟨_, Model.entity?_changeEntity he rfl, ?_⟩
  simp only [List.mem_append]
  rcases interfaceKeyCopies_complete hi hf with hown | hcopied
  · obtain ⟨g, hg, hname⟩ := List.any_eq_true.mp hown
    exact ⟨g, .inr hg, by simpa using hname⟩
  · obtain ⟨g, hg, hname⟩ := List.any_eq_true.mp hcopied
    exact ⟨g, .inl hg, by simpa using hname⟩

/-! ### Keys of parents -/

theorem copyParentKey_ok : copyParentKey name parent m = .ok m' ↔
    m.primaryKeyFields parent ≠ [] ∧ m' = m.changeEntity name fun e =>
      leadWithKey ((m.primaryKeyFields parent).map (·.name))
        ((m.primaryKeyFields parent).foldl (addParentKeyField parent) e) := by
  unfold copyParentKey
  split
  · next hnone => simp [hnone, throw, throwThe, MonadExceptOf.throw]
  · next fields hfields =>
    simp only [pure, Except.pure, Except.ok.injEq, eq_comm (a := m')]
    exact ⟨fun h => ⟨hfields, h⟩, And.right⟩

theorem addParentKeyField_copies (hparent : m.Extends e.name parent)
    (hsees : m.Sees parent f.name) : Copies m e (addParentKeyField parent e f) := by
  unfold addParentKeyField
  split
  · exact (isChange_copies m).refl e
  · refine ⟨[], [{ f.referenceCopy parent .inheritedKey with system := true }], [], by simp, ?_⟩
    intro g hg
    obtain rfl := List.mem_singleton.mp hg
    exact ⟨rfl, rfl, parent, .inl hparent, hsees, rfl⟩

theorem addParentKeyFields_copies : ∀ {fields : List Field} {e : Entity},
    m.Extends e.name parent → (∀ f ∈ fields, m.Sees parent f.name) →
      Copies m e (fields.foldl (addParentKeyField parent) e)
  | [], e, _, _ => (isChange_copies m).refl e
  | f :: rest, e, hparent, hsees => by
    obtain ⟨hfirst, hrest⟩ := List.forall_mem_cons.mp hsees
    have hstep := addParentKeyField_copies hparent hfirst
    refine (isChange_copies m).trans hstep (addParentKeyFields_copies ?_ hrest)
    rwa [(isChange_copies m).name hstep]

theorem leadWithKey_copies (fields : List String) (e : Entity) :
    Copies m e (leadWithKey fields e) := by
  unfold leadWithKey
  split
  · exact (isChange_copies m).refl e
  · exact ⟨[], [], [{ fields }], by simp⟩

include hm h in
theorem copyParentKey_copies (hparent : m.Extends name parent)
    (hstep : copyParentKey name parent m₁ = .ok m') : Evolves (Copies m) [] m₁ m' := by
  obtain ⟨-, rfl⟩ := copyParentKey_ok.mp hstep
  refine .changeEntity (isChange_copies m) fun e he => ?_
  refine (isChange_copies m).trans (addParentKeyFields_copies ?_ fun f hf => ?_)
    (leadWithKey_copies _ _)
  · rwa [Model.entity?_name he]
  · exact (Model.sees_copies hm h).mp ⟨f, (Model.mem_primaryKeyFields hf).2, rfl⟩

theorem hasField_addParentKeyFields {fields : List Field} (hf : f ∈ fields) :
    (fields.foldl (addParentKeyField parent) e).hasField f.name = true := by
  refine foldl_reaches (fun e : Entity => e.hasField f.name = true) (fun e => ?_)
    (fun e g he => (addParentKeyField_gains parent e g).hasField he) e hf
  unfold addParentKeyField
  split
  · assumption
  · simp [Entity.hasField, Field.referenceCopy]

theorem hasKey_leadWithKey (fields : List String) (e : Entity) :
    (leadWithKey fields e).hasKey fields = true := by
  unfold leadWithKey
  split
  · assumption
  · simp [Entity.hasKey]

/-- An entity holds the primary key of the parent that was just copied. -/
theorem copyParentKey_holds (he : m.entity? name = some e)
    (h : copyParentKey name parent m = .ok m') :
    ∃ e', m'.entity? name = some e' ∧ e'.HoldsKey ((m.primaryKeyFields parent).map (·.name)) := by
  obtain ⟨-, rfl⟩ := copyParentKey_ok.mp h
  have hname := isChange_gains.name (isChange_gains.trans
    (addParentKeyFields_gains parent (m.primaryKeyFields parent) e)
    (leadWithKey_gains ((m.primaryKeyFields parent).map (·.name)) _))
  refine ⟨_, Model.entity?_changeEntity he hname, fun field hfield => ?_, hasKey_leadWithKey _ _⟩
  obtain ⟨f, hf, rfl⟩ := List.mem_map.mp hfield
  exact (leadWithKey_gains _ _).hasField (hasField_addParentKeyFields hf)

/-! ### Nothing to copy -/

/-- A change that leaves the entity of the name as it is leaves the model as it is. -/
theorem changeEntity_same {change : Entity → Entity}
    (h : ∀ e, m.entity? name = some e → change e = e) : m.changeEntity name change = m := by
  have hentities : ∀ xs : List Entity, (∀ e, xs.find? (·.name = name) = some e → change e = e) →
      changeFirst (·.name = name) change xs = xs := by
    intro xs
    induction xs with
    | nil => exact fun _ => rfl
    | cons x rest ih =>
      intro h
      unfold changeFirst
      split
      · next hx => rw [h x (by rw [List.find?_cons, hx])]
      · next hx => rw [ih (by simpa [hx] using h)]
  unfold Model.changeEntity
  rw [hentities m.entities h]

/-- An entity that owns the keys of its interfaces gets no copies. -/
theorem copyInterfaceKeys_same (h : ∀ e, m.entity? name = some e → ∀ i ∈ m.ownInterfaces name,
    ∀ f, singleKeyField? m i.name = some f → e.hasField f.name = true) :
    copyInterfaceKeys name m = m := by
  unfold copyInterfaceKeys
  split
  · rfl
  · next e he =>
    have hnone : interfaceKeyCopies m e = [] := by
      unfold interfaceKeyCopies
      refine List.foldlRecOn _ _ (motive := fun copies : List Field => copies = []) rfl
        fun copies hcopies i hi => ?_
      subst hcopies
      split
      · rfl
      · next f hf =>
        rw [Model.entity?_name he] at hi
        simp [h e he i hi f hf]
    refine changeEntity_same fun x hx => ?_
    rw [hnone, List.nil_append]

/-- An entity that holds the primary key of a parent stays as it is. -/
theorem copyParentKey_same (hkey : m.primaryKeyFields parent ≠ [])
    (h : ∀ e, m.entity? name = some e →
      e.HoldsKey ((m.primaryKeyFields parent).map (·.name))) :
    copyParentKey name parent m = .ok m := by
  refine copyParentKey_ok.mpr ⟨hkey, (changeEntity_same fun e he => ?_).symm⟩
  have hholds := h e he
  have hfields : (m.primaryKeyFields parent).foldl (addParentKeyField parent) e = e := by
    refine List.foldlRecOn _ _ (motive := fun x : Entity => x = e) rfl fun x hx f hf => ?_
    subst hx
    unfold addParentKeyField
    rw [if_pos (hholds.fields f.name (List.mem_map_of_mem hf))]
  rw [hfields]
  unfold leadWithKey
  rw [if_pos hholds.key]

end Hierarchy

end EntitySchema
