import EntitySchema.Proofs.Correspondence
import EntitySchema.Proofs.Order

/-! The order of entities is canonical. Of all orders that put every entity after what it depends
on, it is the first one when entities are compared by their place in the model: whatever such an
order begins with is ready, and placing takes the first name that is. So a model that is in order
stays as it is, and a model that was put in order once is not changed by doing so again. -/

namespace EntitySchema

open Relation (TransGen)
open Model (Corresponds)

namespace Dependency

/-! ### Placing -/

variable {t : Table} {placed remaining done stuck rest names other : List String}

/-- What was placed stays where it is. -/
theorem place_prefix (h : place t placed remaining = (done, stuck)) : placed <+: done := by
  fun_induction place t placed remaining with
  | case1 => cases h; exact List.prefix_rfl
  | case2 placed remaining name _ ih => exact (List.prefix_append placed [name]).trans (ih h)

/-- The first of the names that are left in order is ready. -/
theorem isReady_of_inOrder {name : String} (h : InOrder t.Needs (placed ++ name :: rest)) :
    isReady t placed name = true :=
  isReady_iff.mpr (h placed name rest rfl)

/-- Names that are in order are placed one after the other. -/
theorem place_inOrder (h : InOrder t.Needs (placed ++ remaining)) :
    place t placed remaining = (placed ++ remaining, []) := by
  fun_induction place t placed remaining with
  | case1 placed remaining hnone =>
    cases remaining with
    | nil => rw [List.append_nil]
    | cons name rest => exact absurd (isReady_of_inOrder h) (List.find?_eq_none.mp hnone name (by simp))
  | case2 placed remaining found hfound ih =>
    cases remaining with
    | nil => cases hfound
    | cons name rest =>
      rw [List.find?_cons_of_pos (isReady_of_inOrder h)] at hfound
      cases hfound
      rw [List.erase_cons_head, List.append_assoc] at ih
      rw [List.erase_cons_head]
      exact ih h

/-- The name that is placed stands before every other one that is ready. -/
theorem precedes_of_find? {name : String} (hnodup : names.Nodup) (hsub : remaining.Sublist names)
    (hfound : remaining.find? (isReady t placed) = some name) {x : String} (hx : x ∈ remaining)
    (hready : isReady t placed x = true) (hne : x ≠ name) : Precedes names name x := by
  obtain ⟨-, front, back, rfl, hfront⟩ := List.find?_eq_some_iff_append.mp hfound
  have hback : x ∈ back := by
    rcases List.mem_append.mp hx with hx | hx
    · have hnot := hfront x hx
      rw [hready] at hnot
      cases hnot
    · exact (List.mem_cons.mp hx).resolve_left hne
  have hpairwise := (pairwise_precedes hnodup).sublist hsub
  exact (List.pairwise_cons.mp (List.pairwise_append.mp hpairwise).2.1).1 x hback

/-- However else the names that are left can be put in order, the first place where that
differs has a later name. -/
theorem place_least (hnodup : names.Nodup) (hsub : remaining.Sublist names)
    (hplace : place t placed remaining = (placed ++ rest, stuck)) (hperm : other.Perm remaining)
    (horder : InOrder t.Needs (placed ++ other)) :
    other = rest ++ stuck ∨ List.Lex (Precedes names) (rest ++ stuck) other := by
  fun_induction place t placed remaining generalizing rest other with
  | case1 placed remaining hnone =>
    cases other with
    | nil =>
      obtain rfl := hperm.nil_eq
      cases rest <;> simp_all
    | cons x other =>
      have hx : x ∈ remaining := hperm.mem_iff.mp List.mem_cons_self
      exact absurd (isReady_of_inOrder horder) (List.find?_eq_none.mp hnone x hx)
  | case2 placed remaining name hfound ih =>
    obtain ⟨rest', hrest⟩ := place_prefix hplace
    rw [List.append_assoc] at hrest
    obtain rfl := List.append_cancel_left hrest
    have hname := List.mem_of_find?_eq_some hfound
    cases other with
    | nil => exact absurd (hperm.mem_iff.mpr hname) (by simp)
    | cons x other =>
      by_cases hx : x = name
      · -- both begin alike, and the names that are left are in order again
        subst hx
        have hperm' : other.Perm (remaining.erase x) := by
          have herase := hperm.erase x
          rwa [List.erase_cons_head] at herase
        rw [← List.append_assoc] at hplace
        have horder' : InOrder t.Needs (placed ++ [x] ++ other) := by
          rwa [List.append_assoc]
        rcases ih (List.erase_sublist.trans hsub) hplace hperm' horder' with heq | hlex
        · exact .inl (by rw [heq]; rfl)
        · exact .inr (.cons hlex)
      · have hready := isReady_of_inOrder horder
        have hmem : x ∈ remaining := hperm.mem_iff.mp List.mem_cons_self
        exact .inr (.rel (precedes_of_find? hnodup hsub hfound hmem hready hx))

/-! ### Models with the same entities -/

variable {m m' : Model}

/-- Dependencies do not depend on the order of entities. -/
theorem dependsOn_perm (hnodup : m.entityNames.Nodup) (h : m'.entities.Perm m.entities) :
    DependsOn m' = DependsOn m := by
  have hsame := Corresponds.of_perm hnodup h
  have hentity : ∀ name, m'.entity? name = m.entity? name := fun name => by
    have hrel := hsame name
    generalize m.entity? name = found at hrel ⊢
    generalize m'.entity? name = found' at hrel ⊢
    cases hrel with
    | some heq => exact congrArg some heq.symm
    | none => rfl
  have hextends : m'.Extends = m.Extends := by
    funext a b
    unfold Model.Extends Model.linksOf
    rw [hentity]
  have hfields : ∀ name, m'.allFields name = m.allFields name := fun name => by
    have hrel := hsame.allFields (Q := Eq)
      (fun e _ heq => heq ▸ Entity.isChange_sameStanding.refl e) (fun _ _ heq => heq ▸ rfl)
      (fun _ _ heq => heq ▸ List.forall₂_same.mpr fun _ _ => rfl) name
    rw [List.forall₂_eq_eq_eq] at hrel
    exact hrel.symm
  funext a b
  unfold DependsOn IsAncestor
  simp only [hentity, hextends, hfields, hsame.mem_entityNames]

/-- The model with its entities in the order in which they are emitted. -/
def emitted (m : Model) : Model := { m with entities := (order m).names.filterMap m.entity? }

theorem order_perm (hnodup : m.entityNames.Nodup) : (order m).names.Perm m.entityNames := by
  rcases hplace : place (table m) [] m.entityNames with ⟨placed, stuck⟩
  rw [order_eq hplace]
  exact (place_table hnodup hplace).2.1

theorem emitted_names (hnodup : m.entityNames.Nodup) :
    (emitted m).entityNames = (order m).names := by
  have hfound : ∀ name ∈ (order m).names, (m.entity? name).map (·.name) = some name := by
    intro name hname
    obtain ⟨e, he⟩ := Model.mem_entityNames.mp ((order_perm hnodup).mem_iff.mp hname)
    rw [he, Option.map_some, Model.entity?_name he]
  unfold emitted Model.entityNames
  dsimp only
  rw [List.map_filterMap, List.filterMap_congr hfound, List.filterMap_some]

theorem emitted_perm (hnodup : m.entityNames.Nodup) :
    (emitted m).entities.Perm m.entities := by
  have hfound : ∀ e ∈ m.entities, (m.entity? ∘ fun e => e.name) e = some e := fun e he =>
    Model.entity?_of_mem hnodup he
  have hall : m.entityNames.filterMap m.entity? = m.entities := by
    unfold Model.entityNames
    rw [List.filterMap_map, List.filterMap_congr hfound, List.filterMap_some]
  have hperm := (order_perm hnodup).filterMap m.entity?
  rwa [hall] at hperm

/-- A model in order is emitted as it stands. -/
theorem order_of_inOrder (h : InOrder (DependsOn m) m.entityNames) :
    (order m).names = m.entityNames := by
  have hplace : place (table m) [] m.entityNames = ([] ++ m.entityNames, []) :=
    place_inOrder (by rwa [table_needs])
  rw [order_eq hplace]
  simp

/-- Without circles of dependencies the entities come in an order in which each stands after all
that it depends on, and that is the first of all such orders when entities are compared by their
place in the model. So a model that is in order already is emitted unchanged, and the model with
its entities in the order in which they are emitted is emitted in the same order. -/
theorem order_canonical (hnodup : m.entityNames.Nodup)
    (hacyclic : ¬∃ a, TransGen (DependsOn m) a a) :
    ((order m).names.Perm m.entityNames ∧ InOrder (DependsOn m) (order m).names) ∧
    (∀ other : List String, other.Perm m.entityNames → InOrder (DependsOn m) other →
      other = (order m).names ∨ List.Lex (Precedes m.entityNames) (order m).names other) ∧
    (InOrder (DependsOn m) m.entityNames → (order m).names = m.entityNames) ∧
    (emitted m).entities.Perm m.entities ∧ (emitted m).entityNames = (order m).names ∧
      (order (emitted m)).names = (order m).names := by
  rcases hplace : place (table m) [] m.entityNames with ⟨placed, stuck⟩
  obtain rfl := (stuck_eq_nil_iff hnodup hplace).mpr hacyclic
  have hnames : (order m).names = placed ++ [] := by rw [order_eq hplace]
  have horder : InOrder (DependsOn m) (order m).names := by
    rw [hnames, List.append_nil]
    exact (place_table hnodup hplace).1
  refine ⟨⟨order_perm hnodup, horder⟩, fun other hperm hother => ?_, order_of_inOrder,
    emitted_perm hnodup, emitted_names hnodup, ?_⟩
  · rw [hnames]
    rw [← table_needs] at hother
    exact place_least hnodup (List.Sublist.refl _) hplace hperm hother
  · rw [← emitted_names hnodup]
    refine order_of_inOrder ?_
    rwa [dependsOn_perm hnodup (emitted_perm hnodup), emitted_names hnodup]

/-- Owners have animals, which may be dogs, and visits are paid by owners to vets. -/
def practice : Model :=
  let entity (name : String) (targets : List String) : Entity :=
    { Entity.named name with
      fields := targets.map fun target => Field.named target (.xref { entity := target }) }
  { Model.empty with entities := [
      entity "Visit" ["Owner", "Vet"], entity "Owner" ["Animal"],
      { entity "Dog" [] with parents := ["Animal"] }, entity "Vet" [], entity "Animal" []] }

theorem practice_canonical :
    practice.entityNames.Nodup ∧ (¬∃ a, TransGen (DependsOn practice) a a) ∧
    (order (emitted practice)).names = ["Vet", "Animal", "Dog", "Owner", "Visit"] := by
  have hnodup : practice.entityNames.Nodup := by decide +kernel
  have hplace : place (table practice) [] practice.entityNames =
      (["Vet", "Animal", "Dog", "Owner", "Visit"], []) := by decide +kernel
  have hacyclic := (stuck_eq_nil_iff hnodup hplace).mp rfl
  refine ⟨hnodup, hacyclic, ?_⟩
  obtain ⟨-, -, -, -, -, hagain⟩ := order_canonical hnodup hacyclic
  rw [hagain, order_eq hplace]
  rfl

end Dependency

end EntitySchema
