import EntitySchema.Proofs.Growth

/-! Models that correspond: they have entities of the same names, in whatever order, and what
one has under a name is related to what the other has. If the related entities stand in
the same place of the hierarchy and have the same keys and related fields, then lineages,
visible fields and visible keys correspond as well, since a hierarchy follows names only. -/

namespace EntitySchema

open Entity (IsChange SameStanding)
open Model (Evolves)

/-- What is found depends on which nodes there are, not on their order. -/
theorem Closure.reach_congr {nodes nodes' seen waiting : List String}
    {links links' : String → List String} {strategy : Strategy}
    (hnodes : ∀ a, a ∈ nodes' ↔ a ∈ nodes) (hlinks : ∀ a, links' a = links a) :
    reach nodes' links' strategy seen waiting = reach nodes links strategy seen waiting := by
  have hcontains : ∀ a, nodes'.contains a = nodes.contains a := fun a => by
    rw [Bool.eq_iff_iff, List.contains_iff_mem, List.contains_iff_mem, hnodes]
  fun_induction reach nodes links strategy seen waiting with
  | case1 => rw [reach]
  | case2 seen name waiting hseen ih => rw [reach, dif_pos hseen, ih]
  | case3 seen name waiting hseen hnode ih =>
    rw [reach, dif_neg hseen, dif_pos (hcontains name ▸ hnode), hlinks, ih]
  | case4 seen name waiting hseen hnode ih =>
    rw [reach, dif_neg hseen, dif_neg (hcontains name ▸ hnode), ih]

/-- Related lists stay related when related items are placed in them. -/
theorem Model.placeField_rel {Q : Field → Field → Prop} (hname : ∀ f f', Q f f' → f'.name = f.name)
    {f f' : Field} (hf : Q f f') {fs fs' : List Field} (h : List.Forall₂ Q fs fs') :
    List.Forall₂ Q (placeField f fs) (placeField f' fs') := by
  induction h with
  | nil => exact .cons hf .nil
  | @cons g g' rest rest' hg hrest ih =>
    unfold placeField
    rw [hname g g' hg, hname f f' hf]
    split
    · exact .cons hf hrest
    · exact .cons hg ih

theorem Model.foldl_placeField_rel {Q : Field → Field → Prop}
    (hname : ∀ f f', Q f f' → f'.name = f.name) {fs fs' : List Field}
    (h : List.Forall₂ Q fs fs') : ∀ {acc acc' : List Field}, List.Forall₂ Q acc acc' →
    List.Forall₂ Q (fs.foldl (fun fields f => placeField f fields) acc)
      (fs'.foldl (fun fields f => placeField f fields) acc') := by
  induction h with
  | nil => exact fun hacc => hacc
  | cons hf _ ih => exact fun hacc => ih (placeField_rel hname hf hacc)

/-- In related lists, related items are found first, or none. -/
theorem find?_rel {α β : Type} {R : α → β → Prop} {p : α → Bool} {q : β → Bool} {xs : List α}
    {ys : List β} (hpq : ∀ a b, R a b → q b = p a) (h : List.Forall₂ R xs ys) :
    Option.Rel R (xs.find? p) (ys.find? q) := by
  induction h with
  | nil => exact .none
  | @cons x y rest rest' hxy _ ih =>
    rw [List.find?_cons, List.find?_cons, hpq x y hxy]
    split
    · exact .some hxy
    · exact ih

namespace Model

variable {m m' : Model} {R : Entity → Entity → Prop} {name : String} {e e' : Entity}

/-- Under each name the models have related entities, or none. -/
def Corresponds (R : Entity → Entity → Prop) (m m' : Model) : Prop :=
  ∀ name, Option.Rel R (m.entity? name) (m'.entity? name)

namespace Corresponds

theorem refl (hR : ∀ e, R e e) (m : Model) : Corresponds R m m := by
  intro name
  cases m.entity? name with
  | none => exact .none
  | some e => exact .some (hR e)

theorem forward (h : Corresponds R m m') (he : m.entity? name = some e) :
    ∃ e', m'.entity? name = some e' ∧ R e e' := by
  have hrel := h name
  rw [he] at hrel
  cases hfound : m'.entity? name with
  | none =>
    rw [hfound] at hrel
    cases hrel
  | some e' =>
    rw [hfound] at hrel
    cases hrel with
    | some hR => exact ⟨e', rfl, hR⟩

theorem back (h : Corresponds R m m') (he : m'.entity? name = some e') :
    ∃ e, m.entity? name = some e ∧ R e e' := by
  have hrel := h name
  rw [he] at hrel
  cases hfound : m.entity? name with
  | none =>
    rw [hfound] at hrel
    cases hrel
  | some e =>
    rw [hfound] at hrel
    cases hrel with
    | some hR => exact ⟨e, rfl, hR⟩

theorem mono {S : Entity → Entity → Prop} (hRS : ∀ e e', R e e' → S e e')
    (h : Corresponds R m m') : Corresponds S m m' := by
  intro name
  have hrel := h name
  generalize m.entity? name = found at hrel ⊢
  generalize m'.entity? name = found' at hrel ⊢
  cases hrel with
  | some hR => exact .some (hRS _ _ hR)
  | none => exact .none

/-- Two models that correspond to a third correspond to each other. -/
theorem between {m₁ m₂ : Model} (h₁ : Corresponds R m m₁) (h₂ : Corresponds R m m₂) :
    Corresponds (fun e₁ e₂ => ∃ e, R e e₁ ∧ R e e₂) m₁ m₂ := by
  intro name
  have hrel₁ := h₁ name
  have hrel₂ := h₂ name
  generalize m.entity? name = found at hrel₁ hrel₂
  generalize m₁.entity? name = found₁ at hrel₁ ⊢
  generalize m₂.entity? name = found₂ at hrel₂ ⊢
  cases hrel₁ with
  | some hR₁ =>
    cases hrel₂ with
    | some hR₂ => exact .some ⟨_, hR₁, hR₂⟩
  | none =>
    cases hrel₂
    exact .none

/-- An entity is replaced by another that is related as well. -/
theorem changeEntity {x : Entity} (hname : x.name = name) (h : Corresponds R m m')
    (he : m.entity? name = some e) (hx : R e x) :
    Corresponds R m (m'.changeEntity name fun _ => x) := by
  intro other
  by_cases hother : other = name
  · obtain ⟨e', he', -⟩ := h.forward he
    have hsame : x.name = e'.name := hname.trans (entity?_name he').symm
    rw [hother, he, entity?_changeEntity he' hsame]
    exact .some hx
  · rw [entity?_changeEntity_of_ne (fun _ _ => hname) hother]
    exact h other

theorem mem_entityNames (h : Corresponds R m m') :
    name ∈ m'.entityNames ↔ name ∈ m.entityNames := by
  rw [Model.mem_entityNames, Model.mem_entityNames]
  constructor
  · rintro ⟨e', he'⟩
    obtain ⟨e, he, -⟩ := h.back he'
    exact ⟨e, he⟩
  · rintro ⟨e, he⟩
    obtain ⟨e', he', -⟩ := h.forward he
    exact ⟨e', he'⟩

theorem hasEntity (h : Corresponds R m m') (name : String) :
    m'.hasEntity name = m.hasEntity name := by
  rw [Bool.eq_iff_iff, hasEntity_iff, hasEntity_iff, ← Model.mem_entityNames,
    ← Model.mem_entityNames]
  exact h.mem_entityNames

/-- Entities of different names are found whatever their order. -/
theorem of_perm (hnodup : m.entityNames.Nodup) (h : m'.entities.Perm m.entities) :
    Corresponds Eq m m' := by
  have hnodup' : m'.entityNames.Nodup := (h.map Entity.name).nodup_iff.mpr hnodup
  intro name
  cases he : m.entity? name with
  | some e =>
    have hfound := entity?_of_mem hnodup' (h.mem_iff.mpr (entity?_mem he))
    rw [entity?_name he] at hfound
    rw [hfound]
    exact .some rfl
  | none =>
    cases he' : m'.entity? name with
    | none => exact .none
    | some e' =>
      have hfound := entity?_of_mem hnodup (h.mem_iff.mp (entity?_mem he'))
      rw [entity?_name he', he] at hfound
      cases hfound

/-! ### Hierarchies -/

section Hierarchies

variable (h : Corresponds R m m')

include h in
theorem linksOf {links : Entity → List String} (hlinks : ∀ e e', R e e' → links e' = links e)
    (name : String) : m'.linksOf links name = m.linksOf links name := by
  have hrel := h name
  unfold Model.linksOf
  generalize m.entity? name = found at hrel ⊢
  generalize m'.entity? name = found' at hrel ⊢
  cases hrel with
  | some hsame => exact hlinks _ _ hsame
  | none => rfl

include h in
theorem entitiesFrom {links : Entity → List String} (hlinks : ∀ e e', R e e' → links e' = links e)
    (strategy : Closure.Strategy) (name : String) (waiting : List String) :
    List.Forall₂ R (m.entitiesFrom links strategy name waiting)
      (m'.entitiesFrom links strategy name waiting) := by
  unfold Model.entitiesFrom
  rw [Closure.reach_congr (fun a => h.mem_entityNames) (h.linksOf hlinks)]
  refine List.rel_filterMap (R := Eq) (P := R) (fun a b hab => ?_)
    (List.forall₂_same.mpr fun _ _ => rfl)
  exact hab ▸ h a

variable (hstanding : ∀ e e', R e e' → SameStanding e e')

include h hstanding in
theorem ancestors (name : String) : List.Forall₂ R (m.ancestors name) (m'.ancestors name) := by
  have hparents : ∀ e e', R e e' → e'.parents = e.parents :=
    fun e e' h => (hstanding e e' h).parents
  unfold Model.ancestors
  rw [h.linksOf hparents]
  exact h.entitiesFrom hparents _ _ _

include h hstanding in
theorem interfaces (name : String) : List.Forall₂ R (m.interfaces name) (m'.interfaces name) := by
  have himplements : ∀ e e', R e e' → e'.implements = e.implements :=
    fun e e' h => (hstanding e e' h).implements
  have hancestors : (m'.ancestors name).flatMap (·.implements) =
      (m.ancestors name).flatMap (·.implements) :=
    flatMap_eq_of_forall₂ himplements (h.ancestors hstanding name)
  unfold Model.interfaces
  rw [h.linksOf himplements, hancestors]
  exact h.entitiesFrom himplements _ _ _

include h hstanding in
theorem lineage (name : String) : List.Forall₂ R (m.lineage name) (m'.lineage name) := by
  have hself : List.Forall₂ R (m.entity? name).toList (m'.entity? name).toList := by
    have hrel := h name
    generalize m.entity? name = found at hrel ⊢
    generalize m'.entity? name = found' at hrel ⊢
    cases hrel with
    | some hsame => exact .cons hsame .nil
    | none => exact .nil
  have habove := List.rel_append (R := R) (h.interfaces hstanding name)
    (List.forall₂_reverse_iff.mpr (h.ancestors hstanding name))
  exact List.rel_append (R := R) habove hself

include h hstanding in
theorem allKeys (hkeys : ∀ e e', R e e' → e'.keys = e.keys) (name : String) :
    m'.allKeys name = m.allKeys name := by
  unfold Model.allKeys
  rw [flatMap_eq_of_forall₂ hkeys (h.lineage hstanding name)]

variable {Q : Field → Field → Prop} (hname : ∀ f f', Q f f' → f'.name = f.name)
  (hfields : ∀ e e', R e e' → List.Forall₂ Q e.fields e'.fields)

include h hstanding hname hfields in
theorem allFields (name : String) : List.Forall₂ Q (m.allFields name) (m'.allFields name) := by
  have hall : List.Forall₂ Q ((m.lineage name).flatMap (·.fields))
      ((m'.lineage name).flatMap (·.fields)) :=
    List.rel_flatMap (R := R) (P := Q) (h.lineage hstanding name) fun e e' h => hfields e e' h
  exact foldl_placeField_rel hname hall .nil

include h hstanding hname hfields in
theorem visibleField? (entity field : String) :
    Option.Rel Q (m.visibleField? entity field) (m'.visibleField? entity field) :=
  find?_rel (fun f f' h => by rw [hname f f' h]) (h.allFields hstanding hname hfields entity)

include h hstanding hname hfields in
theorem visibleFieldIgnoringCase? (entity field : String) :
    Option.Rel Q (m.visibleFieldIgnoringCase? entity field)
      (m'.visibleFieldIgnoringCase? entity field) := by
  have hexact := h.visibleField? hstanding hname hfields entity field
  have hsimilar : Option.Rel Q
      ((m.allFields entity).find? fun f => Text.sameIgnoringCase f.name field)
      ((m'.allFields entity).find? fun f => Text.sameIgnoringCase f.name field) :=
    find?_rel (fun f f' h => by rw [hname f f' h]) (h.allFields hstanding hname hfields entity)
  unfold Model.visibleField? at hexact
  unfold Model.visibleFieldIgnoringCase?
  dsimp only
  generalize (m.allFields entity).find? (·.name = field) = found at hexact ⊢
  generalize (m'.allFields entity).find? (·.name = field) = found' at hexact ⊢
  cases hexact with
  | some hf => exact .some hf
  | none => exact hsimilar

include h hstanding hname hfields in
theorem fieldNames (name : String) :
    (m'.allFields name).map (·.name) = (m.allFields name).map (·.name) :=
  map_eq_of_forall₂ hname (h.allFields hstanding hname hfields name)

include h hstanding hname hfields in
theorem sees {field : String} : m'.Sees name field ↔ m.Sees name field := by
  have hmem : ∀ m : Model, m.Sees name field ↔ field ∈ (m.allFields name).map (·.name) :=
    fun m => by simp [Model.Sees]
  rw [hmem, hmem, h.fieldNames hstanding hname hfields]

end Hierarchies

end Corresponds

end Model

end EntitySchema
