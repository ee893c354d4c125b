import EntitySchema.Dependency
import EntitySchema.Proofs.Inheritance
import Mathlib.Data.Fintype.Pigeonhole
import Mathlib.Data.List.Nodup

/-! The order of entities. Placing whatever is ready, again and again, gets stuck on
exactly those names from which a circle of dependencies can be reached: what is
placed leads only to names that were placed earlier, and what is stuck leads to
something that is stuck as well. -/

namespace EntitySchema

open Relation (ReflTransGen TransGen)

/-! ### Circles in a relation -/

/-- A circle can be reached from the name. -/
def ReachesCircle (R : String → String → Prop) (a : String) : Prop :=
  ∃ c, ReflTransGen R a c ∧ TransGen R c c

/-- Among finitely many names that each lead to one of them, all reach a circle. -/
theorem reachesCircle_of_serial {R : String → String → Prop} {names : List String}
    (h : ∀ a ∈ names, ∃ b ∈ names, R a b) {a : String} (ha : a ∈ names) : ReachesCircle R a := by
  choose next hmem hnext using h
  let walk : ℕ → { x // x ∈ names } := fun n =>
    (fun x => ⟨next x.1 x.2, hmem x.1 x.2⟩)^[n] ⟨a, ha⟩
  have hstep : ∀ n, R (walk n) (walk (n + 1)) := by
    intro n
    simp only [walk, Function.iterate_succ_apply']
    exact hnext _ _
  have hpath : ∀ i k, TransGen R (walk i) (walk (i + k + 1)) := by
    intro i k
    induction k with
    | zero => exact .single (hstep i)
    | succ k ih => exact .tail ih (hstep (i + k + 1))
  have hstart : ∀ n, ReflTransGen R a (walk n) := by
    intro n
    induction n with
    | zero => exact .refl
    | succ n ih => exact .tail ih (hstep n)
  -- an infinite walk among finitely many names is twice at the same one
  obtain ⟨i, j, hne, heq⟩ := Finite.exists_ne_map_eq_of_infinite walk
  wlog hlt : i < j generalizing i j
  · exact this j i hne.symm heq.symm (by omega)
  obtain ⟨k, rfl⟩ := Nat.exists_eq_add_of_lt hlt
  have hcircle := hpath i k
  rw [← heq] at hcircle
  exact ⟨walk i, hstart i, hcircle⟩

/-- Every name comes after all that it leads to. -/
def InOrder (R : String → String → Prop) (names : List String) : Prop :=
  ∀ before a after, names = before ++ a :: after → ∀ b, R a b → b ∈ before

namespace InOrder

variable {R : String → String → Prop} {names : List String} {a b : String}

theorem nil : InOrder R [] := by
  intro before a after h
  cases before <;> cases h

theorem concat (h : InOrder R names) (ha : ∀ b, R a b → b ∈ names) : InOrder R (names ++ [a]) := by
  intro before x after heq b hb
  rcases List.eq_nil_or_concat after with rfl | ⟨after, last, rfl⟩
  · obtain ⟨rfl, hx⟩ := List.append_inj' heq rfl
    cases hx
    exact ha b hb
  · rw [List.concat_eq_append, ← List.cons_append, ← List.append_assoc] at heq
    obtain ⟨rfl, -⟩ := List.append_inj' heq rfl
    exact h before x after rfl b hb

/-- Among names in order that occur once, what a path leads to comes earlier. -/
theorem no_circle (h : InOrder R names) (hnodup : names.Nodup) (ha : a ∈ names) :
    ¬ReachesCircle R a := by
  have hearlier : ∀ {a b}, TransGen R a b → ∀ before after, names = before ++ a :: after →
      b ∈ before := by
    intro a b hpath
    induction hpath using TransGen.head_induction_on with
    | single hab => exact fun before after heq => h before _ after heq b hab
    | @head a c hac _ ih =>
      intro before after heq
      obtain ⟨first, rest, rfl⟩ := List.append_of_mem (h before a after heq c hac)
      have hmem := ih first (rest ++ a :: after) (by rw [heq]; simp)
      exact List.mem_append_left _ hmem
  rintro ⟨c, hac, hcc⟩
  have hc : c ∈ names := by
    rcases Relation.reflTransGen_iff_eq_or_transGen.mp hac with rfl | hac
    · exact ha
    · obtain ⟨before, after, rfl⟩ := List.append_of_mem ha
      exact List.mem_append_left _ (hearlier hac before after rfl)
  obtain ⟨before, after, rfl⟩ := List.append_of_mem hc
  have hmem := hearlier hcc before after rfl
  rw [List.nodup_append] at hnodup
  exact hnodup.2.2 c hmem c List.mem_cons_self rfl

end InOrder

/-! ### Positions -/

/-- The first name stands before the second in the list. -/
def Precedes (names : List String) (a b : String) : Prop := names.idxOf a < names.idxOf b

theorem pairwise_precedes {names : List String} (hnodup : names.Nodup) :
    names.Pairwise (Precedes names) := by
  refine List.pairwise_iff_getElem.mpr fun i j hi hj hij => ?_
  unfold Precedes
  rw [hnodup.idxOf_getElem, hnodup.idxOf_getElem]
  exact hij

namespace Dependency

/-! ### Placing -/

variable {t : Table} {placed remaining done stuck : List String}

/-- The second name is one that the table has for the first. -/
def Table.Needs (t : Table) (a b : String) : Prop := b ∈ t.of a

theorem isReady_iff {name : String} :
    isReady t placed name = true ↔ ∀ b, t.Needs name b → b ∈ placed := by
  simp [isReady, Table.Needs]

/-- What is placed is in order, what is stuck is not ready, and both are all names. -/
theorem place_spec (horder : InOrder t.Needs placed)
    (h : place t placed remaining = (done, stuck)) :
    InOrder t.Needs done ∧ (done ++ stuck).Perm (placed ++ remaining) ∧
      stuck.Sublist remaining ∧ ∀ a ∈ stuck, ¬isReady t done a = true := by
  fun_induction place t placed remaining with
  | case1 placed remaining hnone =>
    cases h
    exact ⟨horder, .refl _, .refl _, fun a ha => List.find?_eq_none.mp hnone a ha⟩
  | case2 placed remaining name hfound ih =>
    have hready := List.find?_some hfound
    have hmem := List.mem_of_find?_eq_some hfound
    obtain ⟨hdone, hperm, hsub, hstuck⟩ := ih (horder.concat (isReady_iff.mp hready)) h
    refine ⟨hdone, hperm.trans ?_, hsub.trans List.erase_sublist, hstuck⟩
    rw [List.append_assoc]
    exact (List.perm_cons_erase hmem).symm.append_left placed

/-- Exactly the names that reach a circle get stuck. -/
theorem mem_stuck_iff {names : List String} (hnodup : names.Nodup)
    (hclosed : ∀ a ∈ names, ∀ b, t.Needs a b → b ∈ names) (h : place t [] names = (done, stuck))
    {a : String} : a ∈ stuck ↔ a ∈ names ∧ ReachesCircle t.Needs a := by
  obtain ⟨hdone, hperm, hsub, hstuck⟩ := place_spec .nil h
  rw [List.nil_append] at hperm
  have hall : ∀ {x}, x ∈ names ↔ x ∈ done ∨ x ∈ stuck := by
    intro x
    rw [← hperm.mem_iff, List.mem_append]
  have hdistinct : (done ++ stuck).Nodup := hperm.nodup_iff.mpr hnodup
  constructor
  · -- whatever is stuck waits for something that was not placed, so is stuck itself
    intro ha
    refine ⟨hsub.subset ha, reachesCircle_of_serial (fun x hx => ?_) ha⟩
    have hwaits := hstuck x hx
    rw [isReady_iff] at hwaits
    obtain ⟨b, hb⟩ := not_forall.mp hwaits
    obtain ⟨hb, hnot⟩ := Classical.not_imp.mp hb
    exact ⟨b, (hall.mp (hclosed x (hsub.subset hx) b hb)).resolve_left hnot, hb⟩
  · rintro ⟨ha, hcircle⟩
    refine (hall.mp ha).resolve_left fun hplaced => ?_
    exact hdone.no_circle (List.Nodup.of_append_left hdistinct) hplaced hcircle

/-! ### Dependencies -/

variable {m : Model} {a b name : String}

/-- The first is an entity that paths of parents lead up to from the second. -/
def IsAncestor (m : Model) (upper lower : String) : Prop :=
  upper ∈ m.entityNames ∧ upper ≠ lower ∧ TransGen m.Extends lower upper

/-- The first depends on the second, a concrete entity other than itself: a reference
that is visible on the first targets the second or one of its ancestors, or the
second is an ancestor of the first. -/
def DependsOn (m : Model) (a b : String) : Prop :=
  (∃ e, m.entity? b = some e ∧ e.isAbstract = false) ∧ b ≠ a ∧
    ((∃ f ∈ m.allFields a, ∃ t, f.target? = some t ∧ (b = t.entity ∨ IsAncestor m t.entity b)) ∨
      IsAncestor m b a)

theorem isConcrete_iff : isConcrete m name = true ↔
    ∃ e, m.entity? name = some e ∧ e.isAbstract = false := by
  unfold isConcrete
  cases m.entity? name <;> simp

theorem mem_ancestors_names : b ∈ (m.ancestors a).map (·.name) ↔ IsAncestor m b a := by
  unfold IsAncestor
  rw [← Model.isAbove_iff, Model.isAbove, List.any_eq_true, List.mem_map]
  simp

theorem mem_descendants_names : b ∈ (m.descendants a).map (·.name) ↔
    b ∈ m.entityNames ∧ IsAncestor m a b := by
  unfold Model.descendants Model.entityNames
  rw [List.mem_map, List.mem_map]
  constructor
  · rintro ⟨e, he, rfl⟩
    obtain ⟨he, habove⟩ := List.mem_filter.mp he
    rw [Bool.and_eq_true, Model.isAbove_iff] at habove
    exact ⟨⟨e, he, rfl⟩, habove.2⟩
  · rintro ⟨⟨e, he, rfl⟩, hup⟩
    refine ⟨e, List.mem_filter.mpr ⟨he, ?_⟩, rfl⟩
    rw [Bool.and_eq_true, Model.isAbove_iff]
    exact ⟨by simpa using hup.2.1.symm, hup⟩

theorem mem_referred {f : Field} : b ∈ referred m f ↔ ∃ t, f.target? = some t ∧
    (b = t.entity ∨ b ∈ m.entityNames ∧ IsAncestor m t.entity b) := by
  unfold referred Field.targetEntity?
  cases f.target? with
  | none => simp
  | some t => simp only [Option.map_some, List.mem_cons, mem_descendants_names, Option.some.injEq,
      exists_eq_left']

theorem mem_dependencies : b ∈ dependencies m a ↔ DependsOn m a b := by
  unfold dependencies DependsOn
  rw [List.mem_eraseDups, List.mem_filter, List.mem_append, List.mem_flatMap, mem_ancestors_names,
    Bool.and_eq_true, isConcrete_iff, decide_eq_true_eq, and_comm, and_assoc]
  refine and_congr_right fun ⟨e, he, _⟩ => and_congr_right fun _ => or_congr_left ?_
  have hb : b ∈ m.entityNames := Model.mem_entityNames.mpr ⟨e, he⟩
  simp only [mem_referred, hb, true_and]

theorem DependsOn.mem_right (h : DependsOn m a b) : b ∈ m.entityNames := by
  obtain ⟨⟨e, he, _⟩, _⟩ := h
  exact Model.mem_entityNames.mpr ⟨e, he⟩

/-- Only the names of entities inherit anything. -/
theorem mem_of_inherits {e : Entity} (he : m.entity? e.name = some e) (h : m.Inherits a e.name) :
    a ∈ m.entityNames := by
  obtain ⟨c, hac, hcb⟩ := h
  rcases ReflTransGen.cases_head hac with rfl | ⟨x, hstep, _⟩
  · rcases ReflTransGen.cases_head hcb with rfl | ⟨x, hstep, _⟩
    · exact Model.mem_entityNames.mpr ⟨e, he⟩
    · exact Model.mem_entityNames_of_link hstep
  · exact Model.mem_entityNames_of_link hstep

theorem DependsOn.mem_left (h : DependsOn m a b) : a ∈ m.entityNames := by
  obtain ⟨-, -, ⟨f, hf, -⟩ | ⟨-, -, hpath⟩⟩ := h
  · obtain ⟨e, he, -⟩ := Model.mem_allFields hf
    obtain ⟨he, hinherits⟩ := Model.mem_lineage.mp he
    exact mem_of_inherits he hinherits
  · obtain ⟨x, hstep, -⟩ := TransGen.head'_iff.mp hpath
    exact Model.mem_entityNames_of_link hstep

theorem lookup_table (names : List String) (a : String) :
    (names.map fun name => (name, dependencies m name)).lookup a =
      if a ∈ names then some (dependencies m a) else none := by
  induction names with
  | nil => rfl
  | cons first rest ih =>
    rw [List.map_cons, List.lookup_cons, ih]
    by_cases hfirst : a = first
    · simp [hfirst]
    · have hne : (a == first) = false := by simpa using hfirst
      simp only [hne, List.mem_cons, hfirst, false_or]

/-- In the table of a model, names need what they depend on. -/
theorem table_needs : (table m).Needs = DependsOn m := by
  funext a b
  rw [Table.Needs, Table.of, table, lookup_table, ← iff_eq_eq]
  split
  · rw [Option.getD_some, mem_dependencies]
  · next ha => exact ⟨fun h => by simp at h, fun h => absurd h.mem_left ha⟩

/-- What is placed comes first, and only what is stuck is warned of. -/
theorem order_eq (h : place (table m) [] m.entityNames = (placed, stuck)) : order m = {
    names := placed ++ stuck
    warning := if stuck = [] then none else some (cycleWarning (table m) placed stuck) } := by
  unfold order
  dsimp only
  rw [h]
  cases stuck <;> simp

/-- What is placed is in order, and exactly the entities that reach a circle get stuck. -/
theorem place_table (hnodup : m.entityNames.Nodup)
    (h : place (table m) [] m.entityNames = (placed, stuck)) :
    InOrder (DependsOn m) placed ∧ (placed ++ stuck).Perm m.entityNames ∧
      stuck.Sublist m.entityNames ∧
      ∀ a, a ∈ stuck ↔ a ∈ m.entityNames ∧ ReachesCircle (DependsOn m) a := by
  obtain ⟨horder, hperm, hsub, -⟩ := place_spec .nil h
  have hclosed : ∀ a ∈ m.entityNames, ∀ b, (table m).Needs a b → b ∈ m.entityNames := by
    intro a _ b hb
    rw [table_needs] at hb
    exact hb.mem_right
  have hstuck := fun a => mem_stuck_iff (a := a) hnodup hclosed h
  rw [table_needs] at horder hstuck
  exact ⟨horder, by simpa using hperm, hsub, hstuck⟩

/-- Nothing gets stuck exactly when dependencies run in no circle. -/
theorem stuck_eq_nil_iff (hnodup : m.entityNames.Nodup)
    (h : place (table m) [] m.entityNames = (placed, stuck)) :
    stuck = [] ↔ ¬∃ a, TransGen (DependsOn m) a a := by
  obtain ⟨-, -, -, hstuck⟩ := place_table hnodup h
  rw [List.eq_nil_iff_forall_not_mem]
  constructor
  · rintro hnone ⟨a, ha⟩
    obtain ⟨x, -, hstep⟩ := TransGen.tail'_iff.mp ha
    exact hnone a ((hstuck a).mpr ⟨hstep.mem_right, a, .refl, ha⟩)
  · intro hnone a ha
    obtain ⟨-, c, -, hc⟩ := (hstuck a).mp ha
    exact hnone ⟨c, hc⟩

/-- The order holds every entity once. It warns exactly when dependencies run in a
circle; without a warning every entity comes after all that it depends on. With
one, that holds of a first part, and behind it stand, in model order, exactly the
entities from which a circle can be reached. -/
theorem order_exact (m : Model) (hnodup : m.entityNames.Nodup) :
    (order m).names.Perm m.entityNames ∧
    ((order m).warning = none ↔ ¬∃ a, TransGen (DependsOn m) a a) ∧
    ((¬∃ a, TransGen (DependsOn m) a a) → InOrder (DependsOn m) (order m).names) ∧
    ∃ placed stuck, (order m).names = placed ++ stuck ∧ InOrder (DependsOn m) placed ∧
      stuck.Sublist m.entityNames ∧
      ∀ a, a ∈ stuck ↔ a ∈ m.entityNames ∧ ReachesCircle (DependsOn m) a := by
  rcases hplace : place (table m) [] m.entityNames with ⟨placed, stuck⟩
  obtain ⟨horder, hperm, hsub, -⟩ := place_spec .nil hplace
  have hstuck : ∀ a, a ∈ stuck ↔ a ∈ m.entityNames ∧ ReachesCircle (DependsOn m) a := by
    intro a
    rw [← table_needs]
    refine mem_stuck_iff hnodup (fun x _ b hb => ?_) hplace
    rw [table_needs] at hb
    exact hb.mem_right
  rw [table_needs] at horder
  have hcircle : stuck = [] ↔ ¬∃ a, TransGen (DependsOn m) a a := by
    rw [List.eq_nil_iff_forall_not_mem]
    constructor
    · rintro hnone ⟨a, ha⟩
      obtain ⟨x, -, hstep⟩ := TransGen.tail'_iff.mp ha
      exact hnone a ((hstuck a).mpr ⟨hstep.mem_right, a, .refl, ha⟩)
    · intro hnone a ha
      obtain ⟨-, c, -, hc⟩ := (hstuck a).mp ha
      exact hnone ⟨c, hc⟩
  have hnames : (order m).names = placed ++ stuck ∧
      ((order m).warning = none ↔ stuck = []) := by
    unfold order
    dsimp only
    rw [hplace]
    cases stuck <;> simp
  obtain ⟨hnames, hwarning⟩ := hnames
  rw [hnames, hwarning, hcircle]
  refine ⟨by simpa using hperm, Iff.rfl, fun hnone => ?_, placed, stuck, rfl, horder, hsub, hstuck⟩
  rw [hcircle.mpr hnone, List.append_nil]
  exact horder

/-- Two entities that refer to each other, one that refers to them, and one that does not. -/
def rivals : Model :=
  let entity (name : String) (targets : List String) : Entity :=
    { Entity.named name with
      fields := targets.map fun target => Field.named target (.xref { entity := target }) }
  { Model.empty with entities :=
      [entity "Fan" ["Red"], entity "Red" ["Blue"], entity "Blue" ["Red"], entity "Field" []] }

theorem rivals_order : (order rivals).names = ["Field", "Fan", "Red", "Blue"] ∧
    ∃ a, TransGen (DependsOn rivals) a a := by
  obtain ⟨-, hwarning, -⟩ := order_exact rivals (by decide)
  refine ⟨by decide +kernel, Classical.not_not.mp fun hnone => ?_⟩
  have hwarned : (order rivals).warning ≠ none := by decide +kernel
  exact hwarned (hwarning.mpr hnone)

end Dependency

end EntitySchema
