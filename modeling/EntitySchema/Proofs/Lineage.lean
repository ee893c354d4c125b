import EntitySchema.Hierarchy
import EntitySchema.Proofs.Evolution
import EntitySchema.Proofs.Reach

/-! What an entity inherits. The ancestors and interfaces that the model collects are
those that paths of parents and interfaces lead to; a field is visible on an
entity, and in one of its visible keys, when some entity of its lineage has it so. -/

namespace EntitySchema

open Relation (ReflTransGen TransGen)
open Closure (Follows)

namespace Model

variable {m : Model} {a b name : String} {e : Entity}

/-- The second name is a parent of the entity of the first name. -/
def Extends (m : Model) (a b : String) : Prop := b ∈ m.linksOf (·.parents) a

/-- The second name is an interface of the entity of the first name. -/
def Implements (m : Model) (a b : String) : Prop := b ∈ m.linksOf (·.implements) a

/-- The first entity looks up to the second: along parents, then along interfaces. -/
def Inherits (m : Model) (a b : String) : Prop :=
  ∃ c, ReflTransGen m.Extends a c ∧ ReflTransGen m.Implements c b

/-- A field of this name is visible on the entity of that name. -/
def Sees (m : Model) (entity field : String) : Prop := ∃ f ∈ m.allFields entity, f.name = field

instance {entity field : String} : Decidable (m.Sees entity field) :=
  inferInstanceAs (Decidable (∃ f ∈ m.allFields entity, f.name = field))

/-- A visible key of the entity names the field. -/
def Keyed (m : Model) (entity field : String) : Prop :=
  ∃ key ∈ m.allKeys entity, field ∈ key.fields

theorem mem_linksOf {links : Entity → List String} :
    b ∈ m.linksOf links a ↔ ∃ e, m.entity? a = some e ∧ b ∈ links e := by
  unfold linksOf
  cases m.entity? a <;> simp

theorem mem_entityNames_of_link {links : Entity → List String} (h : b ∈ m.linksOf links a) :
    a ∈ m.entityNames := by
  obtain ⟨e, he, _⟩ := mem_linksOf.mp h
  exact mem_entityNames.mpr ⟨e, he⟩

/-! ### Paths in the hierarchy -/

theorem mem_entitiesFrom {links : Entity → List String} {strategy : Closure.Strategy}
    {waiting : List String} :
    e ∈ m.entitiesFrom links strategy name waiting ↔
      m.entity? e.name = some e ∧ e.name ≠ name ∧ ∃ w ∈ waiting,
        ReflTransGen (Follows m.entityNames (m.linksOf links) [name]) w e.name := by
  unfold entitiesFrom
  rw [List.mem_filterMap]
  constructor
  · rintro ⟨x, hx, he⟩
    obtain ⟨_, hs, hpath⟩ := Closure.mem_reach.mp hx
    obtain rfl := entity?_name he
    exact ⟨he, by simpa using hs, hpath⟩
  · rintro ⟨he, hne, hpath⟩
    have hmem := mem_entityNames.mpr ⟨e, he⟩
    exact ⟨e.name, Closure.mem_reach.mpr ⟨hmem, by simpa using hne, hpath⟩, he⟩

/-- The names of the entities that are found are those that links lead to. -/
theorem entitiesFrom_names {links : Entity → List String} {strategy : Closure.Strategy}
    {waiting : List String} : (m.entitiesFrom links strategy name waiting).map (·.name) =
      Closure.reach m.entityNames (m.linksOf links) strategy [name] waiting := by
  have hfound : ∀ x ∈ Closure.reach m.entityNames (m.linksOf links) strategy [name] waiting,
      (m.entity? x).map (·.name) = some x := by
    intro x hx
    obtain ⟨e, he⟩ := mem_entityNames.mp (Closure.mem_reach.mp hx).1
    rw [he, Option.map_some, entity?_name he]
  unfold entitiesFrom
  rw [List.map_filterMap, List.filterMap_congr hfound, List.filterMap_some]

theorem entitiesFrom_split {links : Entity → List String} {strategy : Closure.Strategy}
    {waiting : List String} {before after : List Entity}
    (h : m.entitiesFrom links strategy name waiting = before ++ e :: after) :
    Closure.reach m.entityNames (m.linksOf links) strategy [name] waiting =
      before.map (·.name) ++ e.name :: after.map (·.name) := by
  rw [← entitiesFrom_names, h, List.map_append, List.map_cons]

/-- A path that need not avoid its own beginning. -/
theorem follows_iff {links : Entity → List String} {waiting : List String} (hb : b ≠ name)
    (hwaiting : ∀ w ∈ m.linksOf links name, w ∈ waiting) :
    (∃ w ∈ waiting, ReflTransGen (Follows m.entityNames (m.linksOf links) [name]) w b) ↔
      ∃ w ∈ waiting, ReflTransGen (fun c d => d ∈ m.linksOf links c) w b := by
  constructor
  · rintro ⟨w, hw, hpath⟩
    exact ⟨w, hw, Closure.path_mono hpath fun c d h => h.2.2⟩
  · rintro ⟨w, hw, hpath⟩
    have hfollows : ∀ c d, d ∈ m.linksOf links c ∧ c ≠ name →
        Follows m.entityNames (m.linksOf links) [name] c d := fun c d h =>
      ⟨mem_entityNames_of_link h.1, by simpa using h.2, h.1⟩
    rcases Closure.avoid hpath hb with ⟨_, hpath⟩ | ⟨d, hd, hpath⟩
    · exact ⟨w, hw, Closure.path_mono hpath hfollows⟩
    · exact ⟨d, hwaiting d hd, Closure.path_mono hpath hfollows⟩

theorem mem_ancestors : e ∈ m.ancestors name ↔
    m.entity? e.name = some e ∧ e.name ≠ name ∧ TransGen m.Extends name e.name := by
  unfold ancestors
  rw [mem_entitiesFrom]
  refine and_congr_right fun _ => and_congr_right fun hne => ?_
  rw [follows_iff hne fun w hw => hw, TransGen.head'_iff]
  rfl

/-- The entity of the name, and those that it extends. -/
def chain (m : Model) (name : String) : List Entity := (m.entity? name).toList ++ m.ancestors name

theorem lineage_eq (m : Model) (name : String) :
    m.lineage name = m.interfaces name ++ (m.chain name).reverse := by
  unfold lineage chain
  cases m.entity? name <;> simp

theorem mem_chain :
    e ∈ m.chain name ↔ m.entity? e.name = some e ∧ ReflTransGen m.Extends name e.name := by
  unfold chain
  rw [List.mem_append, Option.mem_toList]
  constructor
  · rintro (he | he)
    · exact ⟨entity?_self he, entity?_name he ▸ .refl⟩
    · obtain ⟨he, -, hpath⟩ := mem_ancestors.mp he
      exact ⟨he, hpath.to_reflTransGen⟩
  · rintro ⟨he, hpath⟩
    by_cases hne : e.name = name
    · exact .inl (hne ▸ he)
    · have hpath := (Relation.reflTransGen_iff_eq_or_transGen.mp hpath).resolve_left hne
      exact .inr (mem_ancestors.mpr ⟨he, hne, hpath⟩)

theorem entity?_of_mem_chain (he : e ∈ m.chain name) : m.entity? e.name = some e :=
  (mem_chain.mp he).1

/-- The interfaces are those that the chain leads to. -/
theorem interfaces_eq (m : Model) (name : String) : m.interfaces name =
    m.entitiesFrom (·.implements) .breadthFirst name ((m.chain name).flatMap (·.implements)) := by
  unfold interfaces chain linksOf
  cases m.entity? name <;> simp

/-- The interfaces of an entity start at those of the chain. -/
theorem mem_interface_links : b ∈ (m.chain name).flatMap (·.implements) ↔
    ∃ c, ReflTransGen m.Extends name c ∧ m.Implements c b := by
  rw [List.mem_flatMap]
  constructor
  · rintro ⟨e, he, hb⟩
    obtain ⟨he, hpath⟩ := mem_chain.mp he
    exact ⟨e.name, hpath, mem_linksOf.mpr ⟨e, he, hb⟩⟩
  · rintro ⟨c, hpath, hb⟩
    obtain ⟨e, he, hlink⟩ := mem_linksOf.mp hb
    obtain rfl := entity?_name he
    exact ⟨e, mem_chain.mpr ⟨he, hpath⟩, hlink⟩

theorem mem_interfaces : e ∈ m.interfaces name ↔
    m.entity? e.name = some e ∧ e.name ≠ name ∧
      ∃ c, ReflTransGen m.Extends name c ∧ TransGen m.Implements c e.name := by
  rw [interfaces_eq, mem_entitiesFrom]
  refine and_congr_right fun _ => and_congr_right fun hne => ?_
  rw [follows_iff hne fun w hw => mem_interface_links.mpr ⟨name, .refl, hw⟩]
  constructor
  · rintro ⟨w, hw, hpath⟩
    obtain ⟨c, hc, hlink⟩ := mem_interface_links.mp hw
    exact ⟨c, hc, .head' hlink hpath⟩
  · rintro ⟨c, hc, hpath⟩
    obtain ⟨w, hlink, hpath⟩ := TransGen.head'_iff.mp hpath
    exact ⟨w, mem_interface_links.mpr ⟨c, hc, hlink⟩, hpath⟩

theorem mem_lineage : e ∈ m.lineage name ↔ m.entity? e.name = some e ∧ m.Inherits name e.name := by
  rw [lineage_eq, List.mem_append, List.mem_reverse, mem_chain]
  constructor
  · rintro (h | ⟨he, hpath⟩)
    · obtain ⟨he, _, c, hc, hpath⟩ := mem_interfaces.mp h
      exact ⟨he, c, hc, hpath.to_reflTransGen⟩
    · exact ⟨he, e.name, hpath, .refl⟩
  · rintro ⟨he, c, hc, hpath⟩
    rcases Relation.reflTransGen_iff_eq_or_transGen.mp hpath with rfl | hpath
    · exact .inr ⟨he, hc⟩
    · by_cases hne : e.name = name
      · exact .inr ⟨he, hne ▸ .refl⟩
      · exact .inl (mem_interfaces.mpr ⟨he, hne, c, hc, hpath⟩)

/-! ### Visible fields and keys -/

theorem mem_placeField {f g : Field} {fields : List Field} (h : g ∈ placeField f fields) :
    g = f ∨ g ∈ fields := by
  induction fields with
  | nil => exact .inl (by simpa [placeField] using h)
  | cons x rest ih =>
    unfold placeField at h
    split at h
    · exact (List.mem_cons.mp h).imp_right (List.mem_cons_of_mem _)
    · rcases List.mem_cons.mp h with rfl | h
      · exact .inr List.mem_cons_self
      · exact (ih h).imp_right (List.mem_cons_of_mem _)

theorem name_mem_placeField {f : Field} {fields : List Field} :
    name ∈ (placeField f fields).map (·.name) ↔ f.name = name ∨ name ∈ fields.map (·.name) := by
  induction fields with
  | nil => simp [placeField, eq_comm]
  | cons x rest ih =>
    unfold placeField
    split
    · next hx => simp [hx, eq_comm]
    · simp only [List.map_cons, List.mem_cons, ih]
      rw [← or_assoc, ← or_assoc, or_comm (a := name = x.name)]

theorem mem_foldl_placeField {f : Field} : ∀ fs acc : List Field,
    f ∈ fs.foldl (fun fields g => placeField g fields) acc → f ∈ acc ∨ f ∈ fs
  | [], _, h => .inl h
  | g :: rest, acc, h => by
    rcases mem_foldl_placeField rest _ h with h | h
    · rcases mem_placeField h with rfl | h
      · exact .inr List.mem_cons_self
      · exact .inl h
    · exact .inr (List.mem_cons_of_mem _ h)

/-- Every visible field is an own field of an entity of the lineage. -/
theorem mem_allFields {f : Field} (h : f ∈ m.allFields name) :
    ∃ e ∈ m.lineage name, f ∈ e.fields :=
  List.mem_flatMap.mp ((mem_foldl_placeField _ _ h).resolve_left (by simp))

/-! No two visible fields have the same name. The field nearest to the entity is seen. -/

theorem mem_placeField_self (f : Field) (fields : List Field) : f ∈ placeField f fields := by
  induction fields with
  | nil => simp [placeField]
  | cons x rest ih =>
    unfold placeField
    split
    · exact List.mem_cons_self
    · exact List.mem_cons_of_mem _ ih

theorem placeField_nodup {f : Field} {fields : List Field} (h : (fields.map (·.name)).Nodup) :
    ((placeField f fields).map (·.name)).Nodup := by
  induction fields with
  | nil => simp [placeField]
  | cons x rest ih =>
    rw [List.map_cons, List.nodup_cons] at h
    obtain ⟨hx, hrest⟩ := h
    unfold placeField
    split
    · next hname =>
      rw [List.map_cons, ← hname]
      exact List.nodup_cons.mpr ⟨hx, hrest⟩
    · next hname =>
      refine List.nodup_cons.mpr ⟨fun hmem => ?_, ih hrest⟩
      exact (name_mem_placeField.mp hmem).elim (fun h => hname h.symm) hx

theorem foldl_placeField_nodup (fs : List Field) :
    ((fs.foldl (fun fields g => placeField g fields) []).map (·.name)).Nodup :=
  List.foldlRecOn fs _ (motive := fun fields : List Field => (fields.map (·.name)).Nodup)
    (by simp) fun _ h _ _ => placeField_nodup h

theorem allFields_nodup (m : Model) (name : String) : ((m.allFields name).map (·.name)).Nodup :=
  foldl_placeField_nodup _

/-- A field that was placed before others of its name is not there in the end. -/
theorem mem_of_mem_foldl_placeField {f : Field} : ∀ fs acc : List Field,
    (acc.map (·.name)).Nodup → f ∈ fs.foldl (fun fields g => placeField g fields) acc →
      f.name ∈ fs.map (·.name) → f ∈ fs
  | g :: rest, acc, hnodup, h, hname => by
    by_cases hrest : f.name ∈ rest.map (·.name)
    · exact List.mem_cons_of_mem _
        (mem_of_mem_foldl_placeField rest _ (placeField_nodup hnodup) h hrest)
    · have hg : f.name = g.name := (List.mem_cons.mp hname).resolve_right hrest
      rcases mem_foldl_placeField rest _ h with h | h
      · have hsame : f = g :=
          List.inj_on_of_nodup_map (placeField_nodup hnodup) h (mem_placeField_self g acc) hg
        exact hsame ▸ List.mem_cons_self
      · exact absurd (List.mem_map_of_mem h) hrest

theorem allFields_near {f : Field} {far near : List Entity} (hsplit : m.lineage name = far ++ near)
    (hf : f ∈ m.allFields name) (hnear : ∃ e ∈ near, ∃ g ∈ e.fields, g.name = f.name) :
    ∃ e ∈ near, f ∈ e.fields := by
  unfold allFields at hf
  rw [hsplit, List.flatMap_append, List.foldl_append] at hf
  obtain ⟨e, he, g, hg, hname⟩ := hnear
  refine List.mem_flatMap.mp (mem_of_mem_foldl_placeField _ _ (foldl_placeField_nodup _) hf ?_)
  exact hname ▸ List.mem_map_of_mem (List.mem_flatMap.mpr ⟨e, he, hg⟩)

/-- When parents have a field of the name, or the entity itself, the field that is seen is
one of those, whatever the interfaces have. -/
theorem allFields_extends {f : Field} (hf : f ∈ m.allFields name)
    (h : ∃ e, m.entity? e.name = some e ∧ ReflTransGen m.Extends name e.name ∧
      ∃ g ∈ e.fields, g.name = f.name) :
    ∃ e, m.entity? e.name = some e ∧ ReflTransGen m.Extends name e.name ∧ f ∈ e.fields := by
  obtain ⟨e, he, hpath, hown⟩ := h
  obtain ⟨x, hx, hf⟩ := allFields_near (lineage_eq m name) hf
    ⟨e, List.mem_reverse.mpr (mem_chain.mpr ⟨he, hpath⟩), hown⟩
  obtain ⟨hx, hpath⟩ := mem_chain.mp (List.mem_reverse.mp hx)
  exact ⟨x, hx, hpath, hf⟩

theorem name_mem_foldl_placeField (name : String) (fs : List Field) : ∀ acc : List Field,
    name ∈ (fs.foldl (fun fields g => placeField g fields) acc).map (·.name) ↔
      name ∈ acc.map (·.name) ∨ name ∈ fs.map (·.name) := by
  induction fs with
  | nil => simp
  | cons g rest ih =>
    intro acc
    rw [List.foldl_cons, ih, name_mem_placeField, List.map_cons, List.mem_cons, eq_comm (a := name),
      or_assoc, or_left_comm]

/-- The visible names are the names of the own fields in the lineage. -/
theorem sees_iff {field : String} : m.Sees name field ↔
    ∃ e ∈ m.lineage name, ∃ f ∈ e.fields, f.name = field := by
  have h := name_mem_foldl_placeField field ((m.lineage name).flatMap (·.fields)) []
  simp only [List.map_nil, List.not_mem_nil, false_or, List.mem_map, List.mem_flatMap] at h
  unfold Sees allFields
  rw [h]
  constructor
  · rintro ⟨f, ⟨e, he, hf⟩, hname⟩
    exact ⟨e, he, f, hf, hname⟩
  · rintro ⟨e, he, f, hf, hname⟩
    exact ⟨f, ⟨e, he, hf⟩, hname⟩

theorem sees_iff_visibleField? {field : String} :
    m.Sees name field ↔ ∃ f, m.visibleField? name field = some f := by
  unfold Sees visibleField?
  rw [← Option.isSome_iff_exists, List.find?_isSome]
  simp

theorem exists_mem_placeKey {k : Key} {keys : List Key} {field : String} :
    (∃ key ∈ placeKey k keys, field ∈ key.fields) ↔
      field ∈ k.fields ∨ ∃ key ∈ keys, field ∈ key.fields := by
  unfold placeKey
  split
  · next h =>
    obtain ⟨k', hk', heq⟩ := List.any_eq_true.mp h
    have heq : k'.fields = k.fields := by simpa using heq
    exact ⟨.inr, fun h => h.elim (fun h => ⟨k', hk', heq ▸ h⟩) id⟩
  · simp only [List.mem_append, List.mem_singleton, or_and_right, exists_or, exists_eq_left]
    exact or_comm

theorem exists_mem_foldl_placeKey (field : String) (ks : List Key) : ∀ acc : List Key,
    (∃ key ∈ ks.foldl (fun keys key => placeKey key keys) acc, field ∈ key.fields) ↔
      (∃ key ∈ acc, field ∈ key.fields) ∨ ∃ key ∈ ks, field ∈ key.fields := by
  induction ks with
  | nil => simp
  | cons k rest ih =>
    intro acc
    rw [List.foldl_cons, ih, exists_mem_placeKey]
    simp only [List.mem_cons, or_and_right, exists_or, exists_eq_left]
    rw [or_assoc, or_left_comm]

/-- The visible keys name the fields that the keys in the lineage name. -/
theorem keyed_iff {field : String} : m.Keyed name field ↔
    ∃ e ∈ m.lineage name, ∃ key ∈ e.keys, field ∈ key.fields := by
  have h := exists_mem_foldl_placeKey field ((m.lineage name).flatMap (·.keys)) []
  simp only [List.not_mem_nil, false_and, exists_false, false_or, List.mem_flatMap] at h
  unfold Keyed allKeys
  rw [h]
  constructor
  · rintro ⟨k, ⟨e, he, hk⟩, hf⟩
    exact ⟨e, he, k, hk, hf⟩
  · rintro ⟨e, he, k, hk, hf⟩
    exact ⟨k, ⟨e, he, hk⟩, hf⟩

/-- The fields of the primary key are visible, and the key names them. -/
theorem mem_primaryKeyFields {f : Field} (h : f ∈ m.primaryKeyFields name) :
    m.Keyed name f.name ∧ f ∈ m.allFields name := by
  unfold primaryKeyFields at h
  split at h
  · next key hkey =>
    obtain ⟨field, hfield, hf⟩ := List.mem_filterMap.mp h
    obtain rfl : f.name = field := by simpa using List.find?_some hf
    exact ⟨⟨key, List.mem_of_mem_head? hkey, hfield⟩, List.mem_of_find?_eq_some hf⟩
  · cases h

end Model

end EntitySchema
