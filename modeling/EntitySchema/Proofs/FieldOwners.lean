import EntitySchema.Proofs.Overrides
import EntitySchema.Proofs.SearchOrder
import EntitySchema.Proofs.TopDown

/-! Whose field is seen. When several entities of a lineage have a field of a name, the one
whose field is visible is found by the order in which ancestors and interfaces are
collected. Ancestors are collected depth first and looked at from the end, so that a field
declared again below wins, unless two branches of parents meet; interfaces are collected
breadth first and not looked at from the end, so that the farthest one wins. -/

namespace EntitySchema

open Relation (ReflTransGen TransGen)
open Closure (Follows Within)
open Hierarchy (sources)

variable {m : Model} {a b c name field : String} {e i x : Entity} {f : Field} {n : Nat}

namespace Model

/-- The entity of this name has no field of that name. -/
def Lacks (m : Model) (field a : String) : Prop :=
  ∀ e, m.entity? a = some e → e.hasField field = false

/-- Neither the entity nor one that it extends has a field of the name. -/
def Unclaimed (m : Model) (name field : String) : Prop :=
  ∀ a, ReflTransGen m.Extends name a → m.Lacks field a

/-- Two branches: an entity at or above the first one has two parents, of which one leads to
the second entity and the other to the third. -/
def Forks (m : Model) (a b c : String) : Prop :=
  ∃ z p q, ReflTransGen m.Extends a z ∧ m.Extends z p ∧ m.Extends z q ∧ p ≠ q ∧
    ReflTransGen m.Extends p b ∧ ReflTransGen m.Extends q c

/-- At most so many steps of interfaces lead to the second entity from the first one or one
that it extends. -/
def ImplementsWithin (m : Model) (n : Nat) (a b : String) : Prop :=
  ∃ c, ReflTransGen m.Extends a c ∧ Within m.Implements n c b

/-! ### The order of ancestors and interfaces -/

/-- The entities before an ancestor lead to it. -/
theorem path_of_ancestor {before after : List Entity} (h : m.ancestors name = before ++ e :: after) :
    ReflTransGen (fun c d => m.Extends c d ∧ (c = name ∨ c ∈ before.map (·.name))) name e.name := by
  obtain ⟨w, hw, hpath⟩ := Closure.path_of_found (entitiesFrom_split h)
  exact .head ⟨hw, .inl rfl⟩ (Closure.path_mono hpath fun c d h => ⟨h.2, .inr h.1⟩)

/-- What holds of the entity, and of those before an ancestor, holds on a way to it. -/
theorem chain_of_ancestor {before after : List Entity} {P : String → Prop}
    (h : m.ancestors name = before ++ e :: after) (hself : P name)
    (hbefore : ∀ x ∈ before, P x.name) :
    ReflTransGen (fun c d => m.Extends c d ∧ P c) name e.name := by
  refine Closure.path_mono (path_of_ancestor h) fun c d hcd => ⟨hcd.1, ?_⟩
  rcases hcd.2 with rfl | hc
  · exact hself
  · obtain ⟨y, hy, rfl⟩ := List.mem_map.mp hc
    exact hbefore y hy

/-- An interface is found before those that are farther away. -/
theorem implementsWithin_of_before {before after : List Entity} {y : Entity}
    (h : m.interfaces name = before ++ i :: after) (hy : y ∈ after)
    (hnot : ¬ReflTransGen m.Extends name y.name) (hwithin : m.ImplementsWithin n name y.name) :
    m.ImplementsWithin n name i.name := by
  have hnames := entitiesFrom_split ((interfaces_eq m name).symm.trans h)
  have hne : y.name ≠ name := fun heq => hnot (heq ▸ .refl)
  have hfollows : ∀ c d, m.Implements c d ∧ c ≠ name →
      Follows m.entityNames (m.linksOf (·.implements)) [name] c d := fun c d h =>
    ⟨mem_entityNames_of_link h.1, by simpa using h.2, h.1⟩
  obtain ⟨c, hc, hpath⟩ := hwithin
  cases hpath with
  | refl => exact absurd hc hnot
  | @step n _ d _ hstep hpath =>
    -- what leads back to the entity is no shorter than what leaves it last
    have hnear : ∃ w ∈ (m.chain name).flatMap (·.implements),
        Within (Follows m.entityNames (m.linksOf (·.implements)) [name]) n w y.name := by
      rcases hpath.avoid hne with ⟨-, hpath⟩ | ⟨w, k, hw, hk, hpath⟩
      · exact ⟨d, mem_interface_links.mpr ⟨c, hc, hstep⟩, hpath.mono hfollows⟩
      · exact ⟨w, mem_interface_links.mpr ⟨name, .refl, hw⟩,
          (hpath.mono hfollows).le (Nat.le_of_lt hk)⟩
    obtain ⟨w, hw, hpath⟩ :=
      Closure.within_of_found hnames (List.mem_map_of_mem hy) hnear
    obtain ⟨c, hc, hlink⟩ := mem_interface_links.mp hw
    exact ⟨c, hc, .step hlink (hpath.mono fun c d h => h.2.2)⟩

/-! ### Who is below whom -/

/-- A parent is no interface. -/
theorem Checked.not_implements_of_extends (hm : m.Checked) (ha : TransGen m.Extends a b) :
    ¬TransGen m.Implements c b := by
  intro hb
  obtain ⟨d, -, hstep⟩ := TransGen.tail'_iff.mp ha
  obtain ⟨e, he, hconcrete⟩ := hm.layered.parent hstep
  obtain ⟨e', he', habstract⟩ := hm.layered.interface_of_path hb
  rw [he] at he'
  cases he'
  rw [hconcrete] at habstract
  cases habstract

/-- Two different entities do not inherit from each other. -/
theorem Checked.inherits_antisymm (hm : m.Checked) (hab : m.Inherits a b) (hba : m.Inherits b a) :
    a = b := by
  obtain ⟨c, hac, hcb⟩ := hab
  obtain ⟨d, hbd, hda⟩ := hba
  rcases Relation.reflTransGen_iff_eq_or_transGen.mp hcb with rfl | hcb
  · rcases Relation.reflTransGen_iff_eq_or_transGen.mp hda with rfl | hda
    · rcases Relation.reflTransGen_iff_eq_or_transGen.mp hac with heq | hac
      · exact heq.symm
      · exact absurd (hac.trans_left hbd) (hm.acyclic.parents a)
    · exact (hm.extends_interface hda hac).symm
  · obtain rfl := hm.extends_interface hcb hbd
    rcases Relation.reflTransGen_iff_eq_or_transGen.mp hda with heq | hda
    · exact heq
    · obtain rfl := hm.extends_interface hda hac
      exact absurd (hcb.trans hda) (hm.acyclic.interfaces _)

/-- Where one path leads past entities without the field and another through one with it, the
two part. -/
theorem forks_of_paths (hm : m.Acyclic)
    (hpath : ReflTransGen (fun c d => m.Extends c d ∧ m.Lacks field c) a c)
    (hfield : ¬m.Lacks field b) (hab : TransGen m.Extends a b) (hbc : TransGen m.Extends b c) :
    m.Forks a b c := by
  induction hpath using ReflTransGen.head_induction_on with
  | refl => exact absurd (hab.trans hbc) (hm.parents c)
  | @head a q haq hqc ih =>
    obtain ⟨p, hp, hpb⟩ := TransGen.head'_iff.mp hab
    by_cases hpq : p = q
    · subst hpq
      have hne : b ≠ p := by
        rintro rfl
        rcases ReflTransGen.cases_head hqc with rfl | ⟨d, hstep, -⟩
        · exact hm.parents _ hbc
        · exact hfield hstep.2
      have hpb := (Relation.reflTransGen_iff_eq_or_transGen.mp hpb).resolve_left hne
      obtain ⟨z, r, s, hz, hfork⟩ := ih hpb
      exact ⟨z, r, s, .head hp hz, hfork⟩
    · exact ⟨a, p, q, .refl, hp, haq.1, hpq, hpb, Closure.path_mono hqc fun _ _ h => h.1⟩

/-! ### The owner -/

/-- The entity whose field of this name is visible on another one. -/
structure Shows (m : Model) (name : String) (f : Field) (owner : Entity) : Prop where
  inherited : owner ∈ m.lineage name
  own : f ∈ owner.fields
  /-- It is the entity itself, or the first one with the field on a chain of parents. -/
  chain : ¬m.Unclaimed name f.name →
    ReflTransGen (fun a b => m.Extends a b ∧ m.Lacks f.name a) name owner.name
  /-- If no parent has the field, no interface with the field is farther away. -/
  farthest : m.Unclaimed name f.name → ∀ x ∈ m.interfaces name, x.hasField f.name = true →
    ∀ n, m.ImplementsWithin n name owner.name → m.ImplementsWithin n name x.name
  /-- Those with the field that have it above them stand on another branch of parents, or are
  interfaces. -/
  passed : ∀ x ∈ m.lineage name, x.hasField f.name = true → owner ∈ sources m x.name →
    ¬m.Unclaimed name f.name ∧ m.Forks name x.name owner.name ∨
      m.Unclaimed name f.name ∧ TransGen m.Implements x.name owner.name

theorem hasField_of_mem (hf : f ∈ e.fields) : e.hasField f.name = true :=
  List.any_eq_true.mpr ⟨f, hf, by simp⟩

/-- The last entity of the lineage with a field of the name has the one that is seen. -/
theorem allFields_last {before after : List Entity} {owner : Entity} (hf : f ∈ m.allFields name)
    (h : m.lineage name = before ++ owner :: after) (howner : owner.hasField f.name = true)
    (hafter : ∀ x ∈ after, x.hasField f.name = false) : f ∈ owner.fields := by
  obtain ⟨g, hg, hname⟩ := List.any_eq_true.mp howner
  obtain ⟨x, hx, hfield⟩ :=
    allFields_near h hf ⟨owner, List.mem_cons_self, g, hg, by simpa using hname⟩
  rcases List.mem_cons.mp hx with rfl | hx
  · exact hfield
  · have hlacks := hafter x hx
    rw [hasField_of_mem hfield] at hlacks
    cases hlacks

section Owners

variable {before after : List Entity} (hm : m.Checked) (hf : f ∈ m.allFields name)

include hm hf

theorem shows_self (he : m.entity? name = some e) (hown : e.hasField f.name = true) :
    m.Shows name f e := by
  obtain rfl := entity?_name he
  have hself : e ∈ m.lineage e.name := mem_lineage.mpr ⟨he, e.name, .refl, .refl⟩
  have hclaimed : ¬m.Unclaimed e.name f.name := fun h => by
    rw [h e.name .refl e he] at hown
    cases hown
  have hsplit : m.lineage e.name =
      (m.interfaces e.name ++ (m.ancestors e.name).reverse) ++ e :: [] := by
    unfold lineage
    rw [he, Option.toList_some]
  refine ⟨hself, allFields_last hf hsplit hown (by simp), fun _ => .refl,
    fun h => absurd h hclaimed, fun x hx _ hsource => ?_⟩
  · obtain ⟨-, hne, hinherits⟩ := Hierarchy.mem_sources.mp hsource
    exact absurd (hm.inherits_antisymm (mem_lineage.mp hx).2 hinherits) hne

theorem shows_ancestor (hself : m.Lacks f.name name) (h : m.ancestors name = before ++ e :: after)
    (hown : e.hasField f.name = true) (hbefore : ∀ x ∈ before, x.hasField f.name = false) :
    m.Shows name f e := by
  have hfound : ∀ {x}, x ∈ before ++ e :: after → m.entity? x.name = some x ∧ x.name ≠ name ∧
      TransGen m.Extends name x.name := fun hx => mem_ancestors.mp (h ▸ hx)
  obtain ⟨he, -, hpath⟩ := hfound (x := e) (by simp)
  have hclaimed : ¬m.Unclaimed name f.name := fun hnone => by
    rw [hnone e.name hpath.to_reflTransGen e he] at hown
    cases hown
  -- on the way to the entity there are only such that were found before it
  have hchain : ReflTransGen (fun a b => m.Extends a b ∧ m.Lacks f.name a) name e.name := by
    refine chain_of_ancestor (P := m.Lacks f.name) h hself fun y hy x hx => ?_
    rw [(hfound (List.mem_append_left _ hy)).1] at hx
    cases hx
    exact hbefore _ hy
  have hsplit : m.lineage name = (m.interfaces name ++ after.reverse) ++
      e :: (before.reverse ++ (m.entity? name).toList) := by
    unfold lineage
    rw [h]
    simp
  refine ⟨mem_lineage.mpr ⟨he, e.name, hpath.to_reflTransGen, .refl⟩,
    allFields_last hf hsplit hown fun x hx => ?_, fun _ => hchain, fun h => absurd h hclaimed,
    fun x hx hxown hsource => .inl ⟨hclaimed, ?_⟩⟩
  · rcases List.mem_append.mp hx with hx | hx
    · exact hbefore x (List.mem_reverse.mp hx)
    · exact hself x (Option.mem_toList.mp hx)
  · obtain ⟨-, hne, c, hxc, hce⟩ := Hierarchy.mem_sources.mp hsource
    have hc : e.name = c := (Relation.reflTransGen_iff_eq_or_transGen.mp hce).resolve_right
      fun hce => hm.not_implements_of_extends hpath hce
    subst hc
    have hbelow := (Relation.reflTransGen_iff_eq_or_transGen.mp hxc).resolve_left hne
    obtain ⟨hx, d, hnd, hdx⟩ := mem_lineage.mp hx
    have hd : x.name = d := (Relation.reflTransGen_iff_eq_or_transGen.mp hdx).resolve_right
      fun hdx => hne (hm.extends_interface hdx hxc)
    subst hd
    have hlacks : ¬m.Lacks f.name x.name := fun hlacks => by
      rw [hlacks x hx] at hxown
      cases hxown
    have habove : x.name ≠ name := fun heq => hlacks (heq ▸ hself)
    exact forks_of_paths hm.acyclic hchain hlacks
      ((Relation.reflTransGen_iff_eq_or_transGen.mp hnd).resolve_left habove) hbelow

theorem shows_interface (hnone : m.Unclaimed name f.name)
    (h : m.interfaces name = before ++ i :: after) (hown : i.hasField f.name = true)
    (hafter : ∀ x ∈ after, x.hasField f.name = false) : m.Shows name f i := by
  have hmem : i ∈ m.interfaces name := h ▸ by simp
  obtain ⟨hi, -, c, hc, hpath⟩ := mem_interfaces.mp hmem
  have hfar : ∀ {x}, m.entity? x.name = some x → x.hasField f.name = true →
      ¬ReflTransGen m.Extends name x.name := fun hx hown hpath => by
    rw [hnone _ hpath _ hx] at hown
    cases hown
  have habove : ∀ x, x ∈ (m.ancestors name).reverse ++ (m.entity? name).toList →
      x.hasField f.name = false := by
    intro x hx
    rcases List.mem_append.mp hx with hx | hx
    · obtain ⟨hx, -, hpath⟩ := mem_ancestors.mp (List.mem_reverse.mp hx)
      exact hnone x.name hpath.to_reflTransGen x hx
    · exact hnone name .refl x (Option.mem_toList.mp hx)
  have hsplit : m.lineage name = before ++
      i :: (after ++ ((m.ancestors name).reverse ++ (m.entity? name).toList)) := by
    unfold lineage
    rw [h]
    simp
  refine ⟨mem_lineage.mpr ⟨hi, c, hc, hpath.to_reflTransGen⟩,
    allFields_last hf hsplit hown fun x hx => (List.mem_append.mp hx).elim (hafter x) (habove x),
    fun h => absurd hnone h, fun _ x hx hxown n hwithin => ?_,
    fun x hx hxown hsource => .inr ⟨hnone, ?_⟩⟩
  · rw [h] at hx
    rcases List.mem_append.mp hx with hx | hx
    · obtain ⟨first, rest, rfl⟩ := List.append_of_mem hx
      rw [List.append_assoc, List.cons_append] at h
      exact implementsWithin_of_before h (List.mem_append_right _ List.mem_cons_self)
        (hfar hi hown) hwithin
    · rcases List.mem_cons.mp hx with rfl | hx
      · exact hwithin
      · rw [hafter x hx] at hxown
        cases hxown
  · obtain ⟨-, hne, d, hxd, hdi⟩ := Hierarchy.mem_sources.mp hsource
    obtain ⟨hx, y, hny, hyx⟩ := mem_lineage.mp hx
    have hinterface : TransGen m.Implements y x.name :=
      (Relation.reflTransGen_iff_eq_or_transGen.mp hyx).resolve_left
        fun heq => hfar hx hxown (heq ▸ hny)
    obtain rfl := hm.extends_interface hinterface hxd
    exact (Relation.reflTransGen_iff_eq_or_transGen.mp hdi).resolve_left hne

/-- Every visible field has an owner. -/
theorem exists_shows : ∃ owner, m.Shows name f owner := by
  by_cases hself : m.Lacks f.name name
  · cases hfirst : (m.ancestors name).find? (·.hasField f.name) with
    | some e =>
      obtain ⟨hown, before, after, h, hbefore⟩ := List.find?_eq_some_iff_append.mp hfirst
      exact ⟨e, shows_ancestor hm hf hself h hown (by simpa using hbefore)⟩
    | none =>
      have hancestors : ∀ x ∈ m.ancestors name, x.hasField f.name = false := by
        simpa using hfirst
      have hnone : m.Unclaimed name f.name := by
        intro a hpath x hx
        obtain rfl := entity?_name hx
        by_cases hne : x.name = name
        · exact hself x (hne ▸ hx)
        · exact hancestors x (mem_ancestors.mpr ⟨hx, hne,
            (Relation.reflTransGen_iff_eq_or_transGen.mp hpath).resolve_left hne⟩)
      have hlast : ∃ i, (m.interfaces name).reverse.find? (·.hasField f.name) = some i := by
        obtain ⟨x, hx, hown⟩ := mem_allFields hf
        obtain ⟨hx, c, hc, hpath⟩ := mem_lineage.mp hx
        have hlacks : ∀ {a}, ReflTransGen m.Extends name a → x.name ≠ a := by
          rintro a ha rfl
          have hlacks := hnone _ ha x hx
          rw [hasField_of_mem hown] at hlacks
          cases hlacks
        have hpath := (Relation.reflTransGen_iff_eq_or_transGen.mp hpath).resolve_left (hlacks hc)
        refine Option.isSome_iff_exists.mp (List.find?_isSome.mpr ⟨x, ?_, hasField_of_mem hown⟩)
        exact List.mem_reverse.mpr (mem_interfaces.mpr ⟨hx, hlacks .refl, c, hc, hpath⟩)
      obtain ⟨i, hi⟩ := hlast
      obtain ⟨hown, after, before, h, hafter⟩ := List.find?_eq_some_iff_append.mp hi
      have hsplit : m.interfaces name = before.reverse ++ i :: after.reverse := by
        rw [← List.reverse_reverse (m.interfaces name), h]
        simp
      exact ⟨i, shows_interface hm hf hnone hsplit hown (by simpa using hafter)⟩
  · obtain ⟨e, he, hown⟩ : ∃ e, m.entity? name = some e ∧ e.hasField f.name = true := by
      unfold Lacks at hself
      simpa using hself
    exact ⟨e, shows_self hm hf he hown⟩

end Owners

/-- Where branches do not meet and no interface with the field has another one above it, the
most specific entity has the field that is seen. -/
theorem Shows.most_specific {owner : Entity} (h : m.Shows name f owner)
    (hsingle : ∀ z p q, ReflTransGen m.Extends name z → m.Extends z p → m.Extends z q → p = q)
    (hflat : ∀ x ∈ m.lineage name, ∀ y ∈ m.lineage name, x.hasField f.name = true →
      y.hasField f.name = true → ¬TransGen m.Implements x.name y.name) :
    ∀ x ∈ m.lineage name, x.hasField f.name = true → owner ∉ sources m x.name := by
  intro x hx hown hsource
  rcases h.passed x hx hown hsource with ⟨-, z, p, q, hz, hp, hq, hne, -⟩ | ⟨-, hpath⟩
  · exact hne (hsingle z p q hz hp hq)
  · exact hflat x hx owner h.inherited hown (hasField_of_mem h.own) hpath

end Model

/-- In a model whose hierarchy was checked, every visible field has an owner: the entity itself
if it has a field of the name; else an entity that it extends, the first one with such a
field on some chain of parents; and only if there is none an interface, of all those with
such a field one that no other is farther away than. An entity of the lineage with a field of
the name that has the owner above it is passed over in two cases only: two branches of
parents meet, of which one leads to it and the other to the owner; or both are interfaces. So
the owner is the most specific one if the entity and those that it extends have at most one
parent each, and no interface with the field stands above another one with it. -/
theorem visible_field_owner (hcheck : Hierarchy.check m = .ok ()) (hf : f ∈ m.allFields name) :
    ∃ owner, m.Shows name f owner ∧
      ((∀ z p q, ReflTransGen m.Extends name z → m.Extends z p → m.Extends z q → p = q) →
        (∀ x ∈ m.lineage name, ∀ y ∈ m.lineage name, x.hasField f.name = true →
          y.hasField f.name = true → ¬TransGen m.Implements x.name y.name) →
        ∀ x ∈ m.lineage name, x.hasField f.name = true → owner ∉ sources m x.name) := by
  obtain ⟨owner, howner⟩ := Model.exists_shows (Model.checked_of_check hcheck) hf
  exact ⟨owner, howner, howner.most_specific⟩

/-- Remarks that are declared again: on one of two branches of parents, and on an interface that
has another one above it. -/
def remarks : Model :=
  { Model.empty with entities := [
      { Entity.named "Root" with fields := [Field.named "remark" (.string 10)] },
      { Entity.named "Left" with parents := ["Root"] },
      { Entity.named "Right" with
        parents := ["Root"], fields := [Field.named "remark" (.string 20)] },
      { Entity.named "Both" with parents := ["Left", "Right"] },
      { Entity.named "Base" with
        isAbstract := true, fields := [Field.named "remark" (.string 10)] },
      { Entity.named "Part" with
        isAbstract := true, implements := ["Base"], fields := [Field.named "remark" (.string 20)] },
      { Entity.named "Item" with implements := ["Part"] }] }

/-- The remark of the root is seen where the branches meet, although one of them declares it again. -/
theorem remarks_shown : Hierarchy.check remarks = .ok () ∧
    Field.named "remark" (.string 10) ∈ remarks.allFields "Both" ∧
    ∃ owner, remarks.Shows "Both" (Field.named "remark" (.string 10)) owner ∧ owner.name = "Root" ∧
      ∃ x ∈ remarks.lineage "Both", x.name = "Right" ∧ x.hasField "remark" = true ∧
        owner ∈ sources remarks x.name := by
  have hcheck : Hierarchy.check remarks = .ok () := by decide +kernel
  have hf : Field.named "remark" (.string 10) ∈ remarks.allFields "Both" := by decide +kernel
  have hroot : ∀ owner ∈ remarks.lineage "Both", Field.named "remark" (.string 10) ∈ owner.fields →
      owner.name = "Root" ∧ ∃ x ∈ remarks.lineage "Both", x.name = "Right" ∧
        x.hasField "remark" = true ∧ owner ∈ sources remarks x.name := by decide +kernel
  obtain ⟨owner, howner, -⟩ := visible_field_owner hcheck hf
  exact ⟨hcheck, hf, owner, howner, hroot owner howner.inherited howner.own⟩

/-- The owner of a visible field need not be the most specific one. -/
theorem visible_field_not_always_most_specific : ¬∀ (m : Model) (name : String) (f : Field),
    Hierarchy.check m = .ok () → f ∈ m.allFields name →
      ∃ owner ∈ m.lineage name, f ∈ owner.fields ∧
        ∀ x ∈ m.lineage name, x.hasField f.name = true → owner ∉ sources m x.name := by
  intro h
  have hcheck : Hierarchy.check remarks = .ok () := by decide +kernel
  have hf : Field.named "remark" (.string 10) ∈ remarks.allFields "Item" := by decide +kernel
  have hpassed : ∀ owner ∈ remarks.lineage "Item", Field.named "remark" (.string 10) ∈ owner.fields →
      ∃ x ∈ remarks.lineage "Item", x.hasField "remark" = true ∧ owner ∈ sources remarks x.name := by
    decide +kernel
  obtain ⟨owner, hmem, hown, hspecific⟩ := h remarks "Item" _ hcheck hf
  obtain ⟨x, hx, hxown, hsource⟩ := hpassed owner hmem hown
  exact hspecific x hx hxown hsource

end EntitySchema
