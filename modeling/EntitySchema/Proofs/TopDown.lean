import EntitySchema.Hierarchy.Key
import EntitySchema.Proofs.Layers
import Mathlib.Data.List.Perm.Subperm
import Mathlib.Data.List.Sort

/-! From the top of a hierarchy down. A checked hierarchy runs in no circle, so an entity
has more ancestors than each of its parents, and the order by the number of ancestors puts
every entity behind its parents. -/

namespace EntitySchema

open Relation (ReflTransGen TransGen)

open Entity (SameStanding isChange_sameStanding)
open Model (Evolves)

variable {m m' : Model} {a b name : String} {e : Entity}

/-! ### No circles -/

namespace Model

/-- Neither parents nor interfaces lead from an entity back to it. -/
structure Acyclic (m : Model) : Prop where
  parents : ∀ a, ¬TransGen m.Extends a a
  interfaces : ∀ a, ¬TransGen m.Implements a a

/-- A circle is found from the entities that are on it. -/
theorem no_circle_of_entities {links : Entity → List String}
    (h : ∀ e ∈ m.entities, ¬TransGen (fun c d => d ∈ m.linksOf links c) e.name e.name)
    (a : String) : ¬TransGen (fun c d => d ∈ m.linksOf links c) a a := by
  intro hcircle
  obtain ⟨b, hstep, -⟩ := TransGen.head'_iff.mp hcircle
  obtain ⟨e, he⟩ := mem_entityNames.mp (mem_entityNames_of_link hstep)
  obtain rfl := entity?_name he
  exact h e (entity?_mem he) hcircle

theorem acyclic_of_check (h : Hierarchy.check m = .ok ()) : m.Acyclic := by
  have haccepts := Hierarchy.check_ok_iff.mp h
  exact ⟨no_circle_of_entities fun e he => (haccepts e he).noParentCircle,
    no_circle_of_entities fun e he => (haccepts e he).noInterfaceCircle⟩

/-! ### The number of ancestors -/

/-- An entity has all ancestors of its parent, and the parent. -/
theorem Acyclic.ancestors_lt (hm : m.Acyclic) (hab : m.Extends a b) (hb : b ∈ m.entityNames) :
    (m.ancestors b).length < (m.ancestors a).length := by
  have hnodup : (b :: (m.ancestors b).map (·.name)).Nodup := by
    refine List.nodup_cons.mpr ⟨fun hmem => ?_, ?_⟩
    · obtain ⟨e, he, hname⟩ := List.mem_map.mp hmem
      exact (mem_ancestors.mp he).2.1 hname
    · unfold ancestors
      rw [entitiesFrom_names]
      exact Closure.reach_nodup
  have habove : ∀ {e}, m.entity? e.name = some e → TransGen m.Extends a e.name →
      e.name ∈ (m.ancestors a).map (·.name) := fun {e} he hpath =>
    List.mem_map_of_mem (mem_ancestors.mpr ⟨he, fun heq => hm.parents a (heq ▸ hpath), hpath⟩)
  have hsubset : b :: (m.ancestors b).map (·.name) ⊆ (m.ancestors a).map (·.name) := by
    refine List.cons_subset.mpr ⟨?_, fun x hx => ?_⟩
    · obtain ⟨e, he⟩ := mem_entityNames.mp hb
      obtain rfl := entity?_name he
      exact habove he (.single hab)
    · obtain ⟨e, he, rfl⟩ := List.mem_map.mp hx
      obtain ⟨he, -, hpath⟩ := mem_ancestors.mp he
      exact habove he (.head hab hpath)
  have hlength := (List.subperm_of_subset hnodup hsubset).length_le
  rw [List.length_cons, List.length_map, List.length_map] at hlength
  exact hlength

/-! ### The checked hierarchy -/

/-- What a check of the hierarchy makes sure of. -/
structure Checked (m : Model) : Prop where
  closed : m.Closed
  layered : m.Layered
  acyclic : m.Acyclic

theorem checked_of_check (h : Hierarchy.check m = .ok ()) : m.Checked :=
  ⟨closed_of_check h, layered_of_check h, acyclic_of_check h⟩

theorem Checked.standing (hm : m.Checked) (h : Evolves SameStanding [] m m') : m'.Checked where
  closed := hm.closed.standing h
  layered := hm.layered.standing h
  acyclic := by
    refine ⟨?_, ?_⟩
    · rw [extends_standing h]
      exact hm.acyclic.parents
    · rw [implements_standing h]
      exact hm.acyclic.interfaces

/-- An interface extends nothing, so only interfaces lead on from it. -/
theorem Checked.extends_interface (hm : m.Checked) (ha : TransGen m.Implements name a)
    (hpath : ReflTransGen m.Extends a b) : b = a := by
  rcases ReflTransGen.cases_head hpath with rfl | ⟨p, hp, -⟩
  · rfl
  · exact absurd hp (hm.layered.rootless_of_path ha)

theorem Checked.ancestors_le (hm : m.Checked) (hpath : ReflTransGen m.Extends a b) :
    (m.ancestors b).length ≤ (m.ancestors a).length := by
  induction hpath with
  | refl => exact Nat.le_refl _
  | tail _ hstep ih =>
    obtain ⟨p, hp, -⟩ := hm.layered.parent hstep
    exact Nat.le_of_lt (Nat.lt_of_lt_of_le
      (hm.acyclic.ancestors_lt hstep (mem_entityNames.mpr ⟨p, hp⟩)) ih)

/-- The lineage of a parent: entities with fewer ancestors, and entities without parents. -/
theorem Checked.lineage_above (hm : m.Checked) (hparent : m.Extends a b) (he : e ∈ m.lineage b) :
    (m.ancestors e.name).length < (m.ancestors a).length ∨
      m.linksOf (·.parents) e.name = [] := by
  obtain ⟨he, c, hbc, hce⟩ := mem_lineage.mp he
  rcases ReflTransGen.cases_tail hce with rfl | ⟨d, -, hde⟩
  · obtain ⟨p, hp, -⟩ := hm.layered.parent hparent
    exact .inl (Nat.lt_of_le_of_lt (hm.ancestors_le hbc)
      (hm.acyclic.ancestors_lt hparent (mem_entityNames.mpr ⟨p, hp⟩)))
  · obtain ⟨i, hi, habstract⟩ := hm.layered.interface hde
    exact .inr (List.eq_nil_iff_forall_not_mem.mpr fun x hx => hm.layered.rootless hi habstract hx)

/-- The lineage of an interface: entities without parents. -/
theorem Checked.lineage_interface (hm : m.Checked) (hb : TransGen m.Implements a b)
    (he : e ∈ m.lineage b) : m.linksOf (·.parents) e.name = [] := by
  obtain ⟨-, c, hbc, hce⟩ := mem_lineage.mp he
  rcases ReflTransGen.cases_head hbc with rfl | ⟨d, hstep, -⟩
  · exact List.eq_nil_iff_forall_not_mem.mpr fun _ =>
      hm.layered.rootless_of_path (hb.trans_left hce)
  · exact absurd hstep (hm.layered.rootless_of_path hb)

end Model

namespace Hierarchy

/-- The check looks at names, at what is abstract and at the two relations only. -/
theorem check_standing (h : Evolves SameStanding [] m m') (hcheck : check m = .ok ()) :
    check m' = .ok () := by
  have hfound : ∀ b, (m'.entity? b).map (·.isAbstract) = (m.entity? b).map (·.isAbstract) := by
    intro b
    cases hb : m.entity? b with
    | some i =>
      obtain ⟨i', hi', hsame⟩ := h.entity? isChange_sameStanding hb
      rw [hi', Option.map_some, Option.map_some, hsame.isAbstract]
    | none =>
      cases hb' : m'.entity? b with
      | none => rfl
      | some i' =>
        obtain ⟨i, hi, -⟩ := h.entity?_back isChange_sameStanding hb' (by simp)
        rw [hb] at hi
        cases hi
  have hcycle : ∀ {links : Entity → List String} {a},
      (∀ e e', SameStanding e e' → links e' = links e) →
      inCycle m' links a = inCycle m links a := by
    intro links a hlinks
    have hsame : m'.linksOf links = m.linksOf links := by
      funext b
      exact Model.linksOf_standing hlinks h
    unfold inCycle
    rw [hsame, h.entityNames isChange_sameStanding, List.append_nil]
  refine Except.forM_ok_iff.mpr fun e' he' => ?_
  obtain ⟨e, he, hsame⟩ := (h.mem he').resolve_right (by simp)
  have hinterface : checkInterface m' e' = checkInterface m e := by
    funext b
    have hb := hfound b
    unfold checkInterface
    cases hi : m.entity? b <;> cases hi' : m'.entity? b <;> simp_all [hsame.name]
  have hparent : checkParent m' e' = checkParent m e := by
    funext b
    have hb := hfound b
    unfold checkParent
    cases hi : m.entity? b <;> cases hi' : m'.entity? b <;> simp_all [hsame.name]
  rw [← Except.forM_ok hcheck e he]
  unfold checkEntity
  rw [hinterface, hparent, hcycle fun _ _ h => h.parents, hcycle fun _ _ h => h.implements,
    hsame.name, hsame.isAbstract, hsame.parents, hsame.implements]

/-! ### The order -/

/-- The order in which names with counts stand. -/
def CountLE (a b : String × Nat) : Prop := a.2 ≤ b.2

instance : DecidableRel CountLE := fun a b => inferInstanceAs (Decidable (a.2 ≤ b.2))

instance : Std.Total CountLE := ⟨fun a b => Nat.le_total a.2 b.2⟩

instance : IsTrans (String × Nat) CountLE := ⟨fun _ _ _ => Nat.le_trans⟩

theorem insertCounted_eq (counted : String × Nat) :
    ∀ rest, insertCounted counted rest = rest.orderedInsert CountLE counted
  | [] => rfl
  | other :: rest => by
    unfold insertCounted
    rw [List.orderedInsert, insertCounted_eq counted rest]
    rfl

/-- Names with the numbers of their ancestors, sorted by these. -/
theorem topDown_eq (m : Model) : topDown m =
    ((m.entityNames.map fun name => (name, (m.ancestors name).length)).insertionSort CountLE).map
      (·.1) := by
  have hinsert : insertCounted = List.orderedInsert CountLE := by
    funext counted rest
    exact insertCounted_eq counted rest
  unfold topDown
  rw [hinsert]
  rfl

theorem mem_topDown : a ∈ topDown m ↔ a ∈ m.entityNames := by
  rw [topDown_eq]
  simp [List.mem_insertionSort]

/-- No name comes before one with fewer ancestors. -/
theorem topDown_sorted (m : Model) :
    (topDown m).Pairwise fun a b => (m.ancestors a).length ≤ (m.ancestors b).length := by
  rw [topDown_eq, List.pairwise_map]
  refine (List.pairwise_insertionSort CountLE _).imp_of_mem fun {p q} hp hq hle => ?_
  have hcount : ∀ p ∈ (m.entityNames.map fun name =>
      (name, (m.ancestors name).length)).insertionSort CountLE, p.2 = (m.ancestors p.1).length := by
    intro p hp
    obtain ⟨x, -, rfl⟩ := List.mem_map.mp ((List.mem_insertionSort CountLE).mp hp)
    rfl
  rwa [CountLE, hcount p hp, hcount q hq] at hle

end Hierarchy

end EntitySchema
