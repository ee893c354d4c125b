import EntitySchema.Proofs.Growth

/-! Closed hierarchies. When all parents and interfaces that entities name are there,
entities that are added stand apart: every other entity keeps its lineage, its keys
and the names that are visible on it, as long as outlines stay what they are. -/

namespace EntitySchema

open Model (Evolves)
open Entity (IsChange SameOutline SameStanding isChange_sameOutline)

/-! ### What is found -/

/-- More nodes make no difference when no link leads to them. -/
theorem Closure.reach_append {nodes added seen waiting : List String}
    {links links' : String → List String} {strategy : Strategy}
    (hlinks : ∀ a ∈ nodes, links' a = links a ∧ links a ⊆ nodes) (hwaiting : waiting ⊆ nodes) :
    reach (nodes ++ added) links' strategy seen waiting =
      reach nodes links strategy seen waiting := by
  fun_induction reach nodes links strategy seen waiting with
  | case1 => rw [reach]
  | case2 seen name waiting hseen ih =>
    rw [reach, dif_pos hseen, ih (List.subset_of_cons_subset hwaiting)]
  | case3 seen name waiting hseen hnode ih =>
    have hname : name ∈ nodes := by simpa using hnode
    have hnode' : (nodes ++ added).contains name := by simp [hname]
    rw [reach, dif_neg hseen, dif_pos hnode', (hlinks name hname).1, ih ?_]
    intro x hx
    rcases mem_enqueue.mp hx with hx | hx
    · exact (hlinks name hname).2 hx
    · exact hwaiting (List.mem_cons_of_mem _ hx)
  | case4 seen name waiting hseen hnode ih =>
    exact absurd (by simpa using hwaiting List.mem_cons_self) hnode

namespace Model

variable {m m' : Model} {added : List String} {a b name : String} {e e' : Entity}

/-- All parents and interfaces that entities name are there. -/
def Closed (m : Model) : Prop :=
  ∀ e ∈ m.entities, ∀ b ∈ e.parents ++ e.implements, b ∈ m.entityNames

instance : Decidable m.Closed :=
  inferInstanceAs (Decidable (∀ e ∈ m.entities, ∀ b ∈ e.parents ++ e.implements, _))

theorem Closed.links {links : Entity → List String} (hm : m.Closed)
    (hlinks : ∀ e, links e ⊆ e.parents ++ e.implements) : m.linksOf links name ⊆ m.entityNames := by
  intro b hb
  obtain ⟨e, he, hb⟩ := mem_linksOf.mp hb
  exact hm e (entity?_mem he) b (hlinks e hb)

/-! ### Lineages -/

section Lineages

variable {R : Entity → Entity → Prop} (hR : IsChange R)
  (hstanding : ∀ e e', R e e' → SameStanding e e') (hm : m.Closed) (h : Evolves R added m m')

include hR h in
theorem linksOf_change {links : Entity → List String}
    (hlinks : ∀ e e', R e e' → links e' = links e) (hname : name ∈ m.entityNames) :
    m'.linksOf links name = m.linksOf links name := by
  obtain ⟨e, he⟩ := mem_entityNames.mp hname
  obtain ⟨e', he', hsame⟩ := h.entity? hR he
  unfold linksOf
  rw [he, he']
  exact hlinks e e' hsame

include hR hm h in
/-- Following links from old names leads to the same entities. -/
theorem entitiesFrom_change {links : Entity → List String} {strategy : Closure.Strategy}
    {waiting : List String} (hlinks : ∀ e e', R e e' → links e' = links e)
    (hsubset : ∀ e, links e ⊆ e.parents ++ e.implements) (hwaiting : waiting ⊆ m.entityNames) :
    List.Forall₂ R (m.entitiesFrom links strategy name waiting)
      (m'.entitiesFrom links strategy name waiting) := by
  have hreach : Closure.reach (m.entityNames ++ added) (m'.linksOf links) strategy [name] waiting =
      Closure.reach m.entityNames (m.linksOf links) strategy [name] waiting :=
    Closure.reach_append (fun a ha => ⟨linksOf_change hR h hlinks ha, hm.links hsubset⟩) hwaiting
  unfold entitiesFrom
  rw [h.entityNames hR, hreach]
  have hfound : ∀ a ∈ Closure.reach m.entityNames (m.linksOf links) strategy [name] waiting,
      a ∈ m.entityNames := fun a ha => (Closure.mem_reach.mp ha).1
  refine List.rel_filterMap (R := fun a b => a = b ∧ a ∈ m.entityNames) (P := R)
    (fun a b hab => ?_) (List.forall₂_same.mpr fun a ha => ⟨rfl, hfound a ha⟩)
  obtain ⟨rfl, ha⟩ := hab
  obtain ⟨e, he⟩ := mem_entityNames.mp ha
  obtain ⟨e', he', hsame⟩ := h.entity? hR he
  rw [he, he']
  exact .some hsame

include hR hstanding hm h in
theorem ancestors_change (hname : name ∈ m.entityNames) :
    List.Forall₂ R (m.ancestors name) (m'.ancestors name) := by
  have hparents : ∀ e e', R e e' → e'.parents = e.parents :=
    fun _ _ h => (hstanding _ _ h).parents
  unfold ancestors
  rw [linksOf_change hR h hparents hname]
  exact entitiesFrom_change hR hm h hparents (fun _ => List.subset_append_left _ _)
    (hm.links fun _ => List.subset_append_left _ _)

include hR hstanding hm h in
theorem interfaces_change (hname : name ∈ m.entityNames) :
    List.Forall₂ R (m.interfaces name) (m'.interfaces name) := by
  have himplements : ∀ e e', R e e' → e'.implements = e.implements :=
    fun _ _ h => (hstanding _ _ h).implements
  have hancestors : (m'.ancestors name).flatMap (·.implements) =
      (m.ancestors name).flatMap (·.implements) :=
    flatMap_eq_of_forall₂ himplements (ancestors_change hR hstanding hm h hname)
  unfold interfaces
  rw [linksOf_change hR h himplements hname, hancestors]
  refine entitiesFrom_change hR hm h himplements (fun _ => List.subset_append_right _ _) ?_
  refine List.append_subset.mpr ⟨hm.links fun _ => List.subset_append_right _ _, fun b hb => ?_⟩
  obtain ⟨e, he, hb⟩ := List.mem_flatMap.mp hb
  exact hm e (entity?_mem (mem_ancestors.mp he).1) b (List.mem_append_right _ hb)

include hR hstanding hm h in
theorem lineage_change (hname : name ∈ m.entityNames) :
    List.Forall₂ R (m.lineage name) (m'.lineage name) := by
  have hself : List.Forall₂ R (m.entity? name).toList (m'.entity? name).toList := by
    obtain ⟨e, he⟩ := mem_entityNames.mp hname
    obtain ⟨e', he', hsame⟩ := h.entity? hR he
    rw [he, he']
    exact .cons hsame .nil
  have habove := List.rel_append (R := R) (interfaces_change hR hstanding hm h hname)
    (List.forall₂_reverse_iff.mpr (ancestors_change hR hstanding hm h hname))
  exact List.rel_append (R := R) habove hself

end Lineages

/-! ### Keys -/

section Outlines

variable (hm : m.Closed) (h : Evolves SameOutline added m m')

include hm h in
theorem lineage_outline (hname : name ∈ m.entityNames) :
    List.Forall₂ SameOutline (m.lineage name) (m'.lineage name) :=
  lineage_change isChange_sameOutline (fun _ _ h => h.sameStanding) hm h hname

include hm h in
theorem primaryKey?_outline (hname : name ∈ m.entityNames) :
    m'.primaryKey? name = m.primaryKey? name := by
  have hkeys : (m'.lineage name).flatMap (·.keys) = (m.lineage name).flatMap (·.keys) :=
    flatMap_eq_of_forall₂ (R := SameOutline) (fun _ _ h => h.keys) (lineage_outline hm h hname)
  unfold primaryKey? allKeys
  rw [hkeys]

include hm h in
theorem sees_outline {field : String} (hname : name ∈ m.entityNames) :
    m'.Sees name field ↔ m.Sees name field := by
  have hnames : (m'.lineage name).flatMap (fun e => e.fields.map (·.name)) =
      (m.lineage name).flatMap (fun e => e.fields.map (·.name)) :=
    flatMap_eq_of_forall₂ (R := SameOutline) (fun _ _ h => h.fieldNames)
      (lineage_outline hm h hname)
  have hmem : ∀ m : Model, m.Sees name field ↔
      field ∈ (m.lineage name).flatMap (fun e => e.fields.map (·.name)) := fun m => by
    simp only [sees_iff, List.mem_flatMap, List.mem_map]
  rw [hmem, hmem, hnames]

/-- The names of the fields of the primary key are those of its names that are visible. -/
theorem primaryKeyFields_names (m : Model) (name : String) :
    (m.primaryKeyFields name).map (·.name) =
      ((m.primaryKey? name).elim [] (·.fields)).filter fun field => m.Sees name field := by
  unfold primaryKeyFields
  cases m.primaryKey? name with
  | none => rfl
  | some key =>
    rw [Option.elim_some, List.map_filterMap, ← List.filterMap_eq_filter]
    refine List.filterMap_congr fun field _ => ?_
    by_cases hsees : m.Sees name field
    · obtain ⟨f, hf⟩ := sees_iff_visibleField?.mp hsees
      have hname : f.name = field := by simpa using List.find?_some hf
      simp [hf, hsees, hname]
    · have hnone : m.visibleField? name field = none :=
        Option.eq_none_iff_forall_ne_some.mpr fun f hf => hsees (sees_iff_visibleField?.mpr ⟨f, hf⟩)
      simp [hnone, Option.guard, hsees]

include hm h in
theorem primaryKeyFields_outline (hname : name ∈ m.entityNames) :
    (m'.primaryKeyFields name).map (·.name) = (m.primaryKeyFields name).map (·.name) := by
  rw [primaryKeyFields_names, primaryKeyFields_names, primaryKey?_outline hm h hname]
  simp only [sees_outline hm h hname]

end Outlines

end Model

end EntitySchema
