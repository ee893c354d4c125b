import EntitySchema.Proofs.FieldOwners
import EntitySchema.Proofs.Order
import Mathlib.Order.WellFounded

/-! Which hierarchies are accepted. The check accepts exactly the models in which interfaces
exist and are abstract, parents exist and are not, abstract entities have no parents, and neither
parents nor interfaces run in a circle. In such a model the two together run in no circle either,
although that is never looked at: nothing behind an interface extends anything. -/

namespace EntitySchema

open Relation (ReflTransGen TransGen)

variable {m : Model} {a b : String}

/-! ### Circles of both kinds -/

/-- Among finitely many names, what runs in no circle comes to an end. -/
theorem wellFounded_of_acyclic {R : String → String → Prop} {names : List String}
    (hnames : ∀ {a b}, R a b → a ∈ names) (hacyclic : ∀ a, ¬TransGen R a a) :
    WellFounded fun b a => R a b := by
  classical
  refine WellFounded.wellFounded_iff_has_min.mpr fun s ⟨a, ha⟩ => ?_
  by_contra hnone
  have hnext : ∀ x ∈ s, ∃ y ∈ s, R x y := by simpa using hnone
  have hmem : ∀ x ∈ s, x ∈ names.filter (· ∈ s) := fun x hx => by
    obtain ⟨y, -, hstep⟩ := hnext x hx
    exact List.mem_filter.mpr ⟨hnames hstep, decide_eq_true hx⟩
  have hserial : ∀ x ∈ names.filter (· ∈ s), ∃ y ∈ names.filter (· ∈ s), R x y := by
    intro x hx
    obtain ⟨y, hy, hstep⟩ := hnext x (of_decide_eq_true (List.mem_filter.mp hx).2)
    exact ⟨y, hmem y hy, hstep⟩
  obtain ⟨c, -, hcircle⟩ := reachesCircle_of_serial hserial (hmem a ha)
  exact hacyclic c hcircle

namespace Model

/-- The first entity extends or implements the second. -/
def LeadsUp (m : Model) (a b : String) : Prop := m.Extends a b ∨ m.Implements a b

theorem LeadsUp.inherits (h : m.LeadsUp a b) : m.Inherits a b := by
  rcases h with h | h
  · exact ⟨b, .single h, .refl⟩
  · exact ⟨a, .refl, .single h⟩

/-- On a mixed path all parents come before all interfaces. -/
theorem Layered.inherits_of_path (hm : m.Layered) (h : ReflTransGen m.LeadsUp a b) :
    m.Inherits a b := by
  induction h with
  | refl => exact ⟨a, .refl, .refl⟩
  | tail _ hstep ih => exact ih.trans hm hstep.inherits

theorem Checked.no_mixed_circle (hm : m.Checked) (a : String) : ¬TransGen m.LeadsUp a a := by
  intro hcircle
  obtain ⟨b, hstep, hback⟩ := TransGen.head'_iff.mp hcircle
  obtain rfl := hm.inherits_antisymm hstep.inherits (hm.layered.inherits_of_path hback)
  rcases hstep with hstep | hstep
  · exact hm.acyclic.parents _ (.single hstep)
  · exact hm.acyclic.interfaces _ (.single hstep)

/-- Every chain of parents and interfaces comes to an end. -/
theorem Checked.wellFounded (hm : m.Checked) : WellFounded fun b a => m.LeadsUp a b :=
  wellFounded_of_acyclic (fun h => h.elim mem_entityNames_of_link mem_entityNames_of_link)
    hm.no_mixed_circle

end Model

/-- The check of a hierarchy accepts exactly the models whose interfaces exist and are abstract,
whose parents exist and are not, whose abstract entities have no parents, and in which neither
parents nor interfaces run in a circle. Then parents and interfaces together run in no circle
either, and every chain of them is finite. -/
theorem hierarchy_check_exact (hnodup : m.entityNames.Nodup) :
    (Hierarchy.check m = .ok () ↔
      (∀ e ∈ m.entities, ∀ name ∈ e.implements,
        ∃ i ∈ m.entities, i.name = name ∧ i.isAbstract = true) ∧
      (∀ e ∈ m.entities, ∀ name ∈ e.parents,
        ∃ p ∈ m.entities, p.name = name ∧ p.isAbstract = false) ∧
      (∀ e ∈ m.entities, e.isAbstract = true → e.parents = []) ∧
      (∀ a, ¬TransGen m.Extends a a) ∧ ∀ a, ¬TransGen m.Implements a a) ∧
    (Hierarchy.check m = .ok () →
      (∀ a, ¬TransGen m.LeadsUp a a) ∧ WellFounded fun b a => m.LeadsUp a b) := by
  have hfound : ∀ {name} {p : Entity → Prop}, (∃ e, m.entity? name = some e ∧ p e) ↔
      ∃ e ∈ m.entities, e.name = name ∧ p e := by
    intro name p
    constructor
    · rintro ⟨e, he, hp⟩
      exact ⟨e, Model.entity?_mem he, Model.entity?_name he, hp⟩
    · rintro ⟨e, he, rfl, hp⟩
      exact ⟨e, Model.entity?_of_mem hnodup he, hp⟩
  refine ⟨?_, fun hcheck => ?_⟩
  · simp only [Hierarchy.check_ok_iff, ← hfound]
    constructor
    · intro h
      have hacyclic := Model.acyclic_of_check (Hierarchy.check_ok_iff.mpr h)
      exact ⟨fun e he => (h e he).interfaces, fun e he => (h e he).parents,
        fun e he => (h e he).rootless, hacyclic.parents, hacyclic.interfaces⟩
    · rintro ⟨hinterfaces, hparents, hrootless, hextends, himplements⟩ e he
      exact ⟨hinterfaces e he, hrootless e he, hparents e he, hextends e.name,
        himplements e.name⟩
  · have hchecked := Model.checked_of_check hcheck
    exact ⟨hchecked.no_mixed_circle, hchecked.wellFounded⟩

/-- Boats and ferries, with interfaces on both levels that lead to one more. -/
def boats : Model :=
  { Model.empty with entities := [
      { Entity.named "Ferry" with parents := ["Boat"], implements := ["Timed"] },
      { Entity.named "Boat" with implements := ["Named"] },
      { Entity.named "Timed" with isAbstract := true, implements := ["Named"] },
      { Entity.named "Named" with isAbstract := true }] }

theorem boats_checked : boats.entityNames.Nodup ∧ Hierarchy.check boats = .ok () ∧
    ReflTransGen boats.LeadsUp "Ferry" "Named" ∧
    WellFounded fun b a => boats.LeadsUp a b := by
  have hnodup : boats.entityNames.Nodup := by decide +kernel
  have hcheck : Hierarchy.check boats = .ok () := by decide +kernel
  have hboat : boats.Extends "Ferry" "Boat" :=
    Model.mem_linksOf.mpr ⟨_, rfl, List.mem_singleton_self _⟩
  have hnamed : boats.Implements "Boat" "Named" :=
    Model.mem_linksOf.mpr ⟨_, rfl, List.mem_singleton_self _⟩
  exact ⟨hnodup, hcheck, .head (.inl hboat) (.single (.inr hnamed)),
    ((hierarchy_check_exact hnodup).2 hcheck).2⟩

end EntitySchema
