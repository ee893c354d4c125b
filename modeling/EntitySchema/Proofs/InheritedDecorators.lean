import EntitySchema.Hierarchy.Decorator
import EntitySchema.Proofs.FieldOwners

/-! Which decorator an entity inherits. Entities take the decorator of the first decorated one
of their ancestors, which are collected depth first: it is the nearest one, unless two branches
of parents meet, where the earlier branch wins however far it goes. Interfaces come after the
ancestors, and are collected breadth first, so that there the nearest one wins. -/

namespace EntitySchema

open Relation (ReflTransGen TransGen)
open Closure (Divides Within)
open Model (changeEntity_map)

variable {m : Model} {name : String} {a b e i : Entity} {d : String} {n : Nat}

/-! ### Depth first -/

namespace Model

/-- Two branches of parents meet at or below an entity, of which the earlier one leads to `a`
and the later one to `b`. -/
def Branches (m : Model) (name a b : String) : Prop :=
  ∃ z, ReflTransGen m.Extends name z ∧ Divides m.Extends (m.linksOf (·.parents) z) a b

/-- An ancestor is collected before one that is nearer only where two branches of parents meet. -/
theorem branches_of_before {before after : List Entity}
    (h : m.ancestors name = before ++ a :: after) (hb : b ∈ after)
    (hnear : Within m.Extends n name b.name)
    (hfar : ¬Within m.Extends n name a.name) : m.Branches name a.name b.name := by
  have hmem : b ∈ m.ancestors name := h ▸ by simp [hb]
  have hne := (mem_ancestors.mp hmem).2.1
  have hpath : ∃ w, m.Extends name w ∧
      ReflTransGen (fun c d => (m.Extends c d ∧ c ≠ a.name) ∧ c ≠ name) w b.name := by
    rcases Closure.avoid (hnear.avoiding hfar) hne with ⟨hself, -⟩ | ⟨w, hw, hpath⟩
    · exact absurd rfl hself
    · exact ⟨w, hw.1, hpath⟩
  obtain ⟨w, hw, hpath⟩ := hpath
  have hfollows : ∀ c d, (m.Extends c d ∧ c ≠ a.name) ∧ c ≠ name →
      Closure.Follows m.entityNames (m.linksOf (·.parents)) [name] c d ∧ c ≠ a.name :=
    fun c d h => ⟨⟨mem_entityNames_of_link h.1.1, by simpa using h.2, h.1.1⟩, h.1.2⟩
  have hparts := Closure.parts_of_found (entitiesFrom_split h) (List.mem_map_of_mem hb)
    ⟨w, hw, Closure.path_mono hpath hfollows⟩
  rcases hparts with ⟨p, q, hpq, hne, -, hways⟩ | ⟨w, hw, z, hz, hways⟩
  · exact ⟨name, .refl, p, q, hpq, hne, hways⟩
  · exact ⟨z, .head hw hz, hways⟩

/-- An entity that the one of this name extends, over any number of steps. -/
def Ancestor (m : Model) (name : String) (a : Entity) : Prop :=
  m.entity? a.name = some a ∧ TransGen m.Extends name a.name

/-- An interface of the entity of this name, of one that it extends, or of one of those. -/
def Interface (m : Model) (name : String) (i : Entity) : Prop :=
  m.entity? i.name = some i ∧
    ∃ c, ReflTransGen m.Extends name c ∧ TransGen m.Implements c i.name

/-- The entity of this name has no decorator. -/
def Plain (m : Model) (name : String) : Prop := ∀ e, m.entity? name = some e → e.decorator = none

theorem Ancestor.mem_ancestors (h : m.Ancestor name a) (hplain : m.Plain name)
    (hdecorated : a.decorator.isSome) : a ∈ m.ancestors name := by
  refine Model.mem_ancestors.mpr ⟨h.1, fun heq => ?_, h.2⟩
  rw [hplain a (heq ▸ h.1)] at hdecorated
  cases hdecorated

theorem Interface.mem_interfaces (h : m.Interface name i) (hplain : m.Plain name)
    (hdecorated : i.decorator.isSome) : i ∈ m.interfaces name := by
  refine Model.mem_interfaces.mpr ⟨h.1, fun heq => ?_, h.2⟩
  rw [hplain i (heq ▸ h.1)] at hdecorated
  cases hdecorated

theorem ancestor_of_mem (h : a ∈ m.ancestors name) : m.Ancestor name a :=
  ⟨(mem_ancestors.mp h).1, (mem_ancestors.mp h).2.2⟩

theorem interface_of_mem (h : i ∈ m.interfaces name) : m.Interface name i :=
  ⟨(mem_interfaces.mp h).1, (mem_interfaces.mp h).2.2⟩

/-- The ancestor whose decorator is inherited: on a chain of parents it is the first with a
decorator, and one with a decorator that is nearer is behind a later branch. -/
structure Bequeaths (m : Model) (name : String) (a : Entity) : Prop where
  ancestor : m.Ancestor name a
  decorated : a.decorator.isSome
  chain : ReflTransGen (fun c d => m.Extends c d ∧ m.Plain c) name a.name
  nearest : ∀ b n, m.Ancestor name b → b.decorator.isSome → Within m.Extends n name b.name →
    Within m.Extends n name a.name ∨ m.Branches name a.name b.name

/-- The interface whose decorator is inherited: none with a decorator is nearer. -/
structure Lends (m : Model) (name : String) (i : Entity) : Prop where
  interface : m.Interface name i
  decorated : i.decorator.isSome
  nearest : ∀ j n, m.Interface name j → j.decorator.isSome →
    m.ImplementsWithin n name j.name → m.ImplementsWithin n name i.name

theorem bequeaths_of_first {before after : List Entity} (hplain : m.Plain name)
    (h : m.ancestors name = before ++ a :: after) (ha : a.decorator.isSome)
    (hbefore : ∀ x ∈ before, x.decorator = none) : m.Bequeaths name a := by
  have hfound : ∀ {x}, x ∈ before ++ a :: after → m.entity? x.name = some x := fun hx =>
    (mem_ancestors.mp (h ▸ hx)).1
  refine ⟨ancestor_of_mem (h ▸ by simp), ha, ?_, fun b n hb hdecorated hnear => ?_⟩
  · refine chain_of_ancestor (P := m.Plain) h hplain fun y hy x hx => ?_
    rw [hfound (List.mem_append_left _ hy)] at hx
    cases hx
    exact hbefore _ hy
  · have hmem := hb.mem_ancestors hplain hdecorated
    rw [h] at hmem
    rcases List.mem_append.mp hmem with hmem | hmem
    · rw [hbefore b hmem] at hdecorated
      cases hdecorated
    · rcases List.mem_cons.mp hmem with rfl | hmem
      · exact .inl hnear
      · exact or_iff_not_imp_left.mpr (branches_of_before h hmem hnear)

/-- The entity of this name and those that it extends have at most one parent each. -/
def SingleParents (m : Model) (name : String) : Prop :=
  ∀ z p q, ReflTransGen m.Extends name z → m.Extends z p → m.Extends z q → p = q

/-- Where no entity has two parents, the nearest ancestor with a decorator has the inherited one. -/
theorem Bequeaths.smallest (h : m.Bequeaths name a) (hsingle : m.SingleParents name) :
    ∀ b n, m.Ancestor name b → b.decorator.isSome → Within m.Extends n name b.name →
      Within m.Extends n name a.name := by
  intro b n hb hdecorated hnear
  refine (h.nearest b n hb hdecorated hnear).resolve_right ?_
  rintro ⟨z, hz, p, q, hpq, hne, -⟩
  exact hne (hsingle z p q hz (hpq.subset (by simp)) (hpq.subset (by simp)))

theorem lends_of_first {before after : List Entity} (hplain : m.Plain name)
    (hnone : ∀ a, m.Ancestor name a → a.decorator = none)
    (h : m.interfaces name = before ++ i :: after) (hi : i.decorator.isSome)
    (hbefore : ∀ x ∈ before, x.decorator = none) : m.Lends name i := by
  refine ⟨interface_of_mem (h ▸ by simp), hi, fun j n hj hdecorated hnear => ?_⟩
  have hmem := hj.mem_interfaces hplain hdecorated
  rw [h] at hmem
  rcases List.mem_append.mp hmem with hmem | hmem
  · rw [hbefore j hmem] at hdecorated
    cases hdecorated
  · rcases List.mem_cons.mp hmem with rfl | hmem
    · exact hnear
    · refine implementsWithin_of_before h hmem (fun hpath => ?_) hnear
      have hj : j.decorator = none := by
        rcases Relation.reflTransGen_iff_eq_or_transGen.mp hpath with heq | hpath
        · exact hplain j (heq ▸ hj.1)
        · exact hnone j ⟨hj.1, hpath⟩
      rw [hj] at hdecorated
      cases hdecorated

end Model

namespace Hierarchy

/-! ### One entity -/

/-- The decorator that an entity has after decorators were passed down. -/
structure Decorates (m : Model) (e : Entity) (decorator : Option String) : Prop where
  kept : e.decorator.isSome → decorator = e.decorator
  ancestor : e.decorator = none → (∃ a, m.Ancestor e.name a ∧ a.decorator.isSome) →
    ∃ a, m.Bequeaths e.name a ∧ decorator = a.decorator
  interface : e.decorator = none → (∀ a, m.Ancestor e.name a → a.decorator = none) →
    (∃ i, m.Interface e.name i ∧ i.decorator.isSome) →
    ∃ i, m.Lends e.name i ∧ decorator = i.decorator
  none : e.decorator = none → (∀ a, m.Ancestor e.name a → a.decorator = none) →
    (∀ i, m.Interface e.name i → i.decorator = none) → decorator = none

theorem inheritedDecorator?_eq (m : Model) (name : String) : inheritedDecorator? m name =
    ((m.ancestors name).findSome? (·.decorator)).or
      ((m.interfaces name).findSome? (·.decorator)) := by
  unfold inheritedDecorator?
  rw [List.findSome?_append]

/-- The first decorator is that of the first entity with one. -/
theorem findSome?_decorator {es : List Entity} (h : ∃ e ∈ es, e.decorator.isSome) :
    ∃ before a after, es = before ++ a :: after ∧ a.decorator.isSome ∧
      (∀ x ∈ before, x.decorator = none) ∧ es.findSome? (·.decorator) = a.decorator := by
  obtain ⟨e, he, hdecorated⟩ := h
  obtain ⟨d, hd⟩ := Option.isSome_iff_exists.mp (List.findSome?_isSome_iff.mpr ⟨e, he, hdecorated⟩)
  obtain ⟨before, a, after, hsplit, ha, hbefore⟩ := List.findSome?_eq_some_iff.mp hd
  exact ⟨before, a, after, hsplit, by rw [ha]; rfl, hbefore, hd.trans ha.symm⟩

theorem decorates (hplain : e.decorator = none → m.Plain e.name) :
    Decorates m e (e.decorator.or (inheritedDecorator? m e.name)) := by
  have hinherited := inheritedDecorator?_eq m e.name
  have hancestors (habove : ∀ a, m.Ancestor e.name a → a.decorator = none) :
      (m.ancestors e.name).findSome? (·.decorator) = none :=
    List.findSome?_eq_none_iff.mpr fun a ha => habove a (Model.ancestor_of_mem ha)
  refine ⟨fun hsome => Option.or_of_isSome hsome, fun hnone hsome => ?_,
    fun hnone habove hsome => ?_, fun hnone habove hinterfaces => ?_⟩
  · obtain ⟨b, hb, hdecorated⟩ := hsome
    obtain ⟨before, a, after, hsplit, ha, hbefore, hfirst⟩ :=
      findSome?_decorator ⟨b, hb.mem_ancestors (hplain hnone) hdecorated, hdecorated⟩
    refine ⟨a, Model.bequeaths_of_first (hplain hnone) hsplit ha hbefore, ?_⟩
    rw [hnone, Option.none_or, hinherited, hfirst, Option.or_of_isSome ha]
  · obtain ⟨j, hj, hdecorated⟩ := hsome
    obtain ⟨before, i, after, hsplit, hi, hbefore, hfirst⟩ :=
      findSome?_decorator ⟨j, hj.mem_interfaces (hplain hnone) hdecorated, hdecorated⟩
    refine ⟨i, Model.lends_of_first (hplain hnone) habove hsplit hi hbefore, ?_⟩
    rw [hnone, Option.none_or, hinherited, hancestors habove, Option.none_or, hfirst]
  · have hlent : (m.interfaces e.name).findSome? (·.decorator) = none :=
      List.findSome?_eq_none_iff.mpr fun i hi => hinterfaces i (Model.interface_of_mem hi)
    rw [hnone, Option.none_or, hinherited, hancestors habove, hlent, Option.none_or]

/-! ### All entities -/

/-- The entity with this decorator. -/
def decorate (decorator : Option String) (e : Entity) : Entity := { e with decorator }

@[simp] theorem decorate_name (decorator : Option String) (e : Entity) :
    (decorate decorator e).name = e.name := rfl

@[simp] theorem decorate_decorate (decorator decorator' : Option String) (e : Entity) :
    decorate decorator (decorate decorator' e) = decorate decorator e := rfl

@[simp] theorem decorate_self (e : Entity) : decorate e.decorator e = e := rfl

/-- Entities of these names get what they inherit. -/
theorem decorateEach_eq {inherited : String → Option String} {decorators : List (String × String)}
    (hnodup : m.entityNames.Nodup) (hall : ∀ p ∈ decorators, inherited p.1 = some p.2) :
    decorators.foldl (fun m' p => m'.changeEntity p.1 (decorate (some p.2))) m =
      { m with entities := m.entities.map fun e =>
          if e.name ∈ decorators.map (·.1) then decorate (inherited e.name) e else e } := by
  induction decorators generalizing m with
  | nil => simp
  | cons p decorators ih =>
    obtain ⟨hp, hall⟩ := List.forall_mem_cons.mp hall
    have hnames : (m.changeEntity p.1 (decorate (some p.2))).entityNames = m.entityNames :=
      Model.entityNames_changeEntity (decorate_name _)
    rw [List.foldl_cons, ih (hnames ▸ hnodup) hall, changeEntity_map hnodup]
    dsimp only
    rw [List.map_map]
    refine congrArg (fun entities => { m with entities }) (List.map_congr_left fun e _ => ?_)
    rw [Function.comp_apply, List.map_cons]
    by_cases hname : e.name = p.1
    · simp [hname, hp]
    · rw [if_neg hname]
      refine if_congr ?_ rfl rfl
      rw [List.mem_cons, or_iff_right hname]

theorem mem_inheritedDecorators {p : String × String} : p ∈ inheritedDecorators m ↔
    inheritedDecorator? m p.1 = some p.2 ∧ ∃ e ∈ m.entities, e.decorator = none ∧ e.name = p.1 := by
  unfold inheritedDecorators
  rw [List.mem_filterMap]
  constructor
  · rintro ⟨e, he, h⟩
    split at h
    · cases h
    · next hnone =>
      obtain ⟨d, hd, rfl⟩ := Option.map_eq_some_iff.mp h
      exact ⟨hd, e, he, by simpa using hnone, rfl⟩
  · rintro ⟨hd, e, he, hnone, hname⟩
    refine ⟨e, he, ?_⟩
    rw [hname, hd, hnone]
    rfl

/-- Every entity without a decorator gets what it inherits, and nothing else changes. -/
theorem propagateDecorators_eq (hnodup : m.entityNames.Nodup) : propagateDecorators m =
    { m with entities := m.entities.map fun e =>
        decorate (e.decorator.or (inheritedDecorator? m e.name)) e } := by
  have hall : ∀ p ∈ inheritedDecorators m, inheritedDecorator? m p.1 = some p.2 :=
    fun p hp => (mem_inheritedDecorators.mp hp).1
  refine (decorateEach_eq hnodup hall).trans ?_
  refine congrArg (fun entities => { m with entities }) (List.map_congr_left fun e he => ?_)
  have hmem : e.name ∈ (inheritedDecorators m).map (·.1) ↔
      e.decorator = none ∧ (inheritedDecorator? m e.name).isSome := by
    rw [List.mem_map]
    constructor
    · rintro ⟨⟨name, decorator⟩, hp, rfl⟩
      obtain ⟨hd, x, hx, hnone, hname⟩ := mem_inheritedDecorators.mp hp
      obtain rfl := List.inj_on_of_nodup_map hnodup hx he hname
      exact ⟨hnone, Option.isSome_iff_exists.mpr ⟨_, hd⟩⟩
    · rintro ⟨hnone, hsome⟩
      obtain ⟨d, hd⟩ := Option.isSome_iff_exists.mp hsome
      exact ⟨(e.name, d), mem_inheritedDecorators.mpr ⟨hd, e, he, hnone, rfl⟩, rfl⟩
  split
  · next h => rw [(hmem.mp h).1, Option.none_or]
  · next h =>
    suffices hsame : e.decorator.or (inheritedDecorator? m e.name) = e.decorator by
      rw [hsame, decorate_self]
    cases hdecorator : e.decorator with
    | some d => rfl
    | none => simpa [hmem, hdecorator] using h

/-- Passing decorators down changes the decorators of entities and nothing else. An entity with
a decorator keeps it. One without takes that of an ancestor, if any has one: the first with a
decorator on a chain of parents, such that whatever has a decorator and is nearer is behind a
later one of two branches of parents that meet. So it is the nearest one if the entity and
those that it extends have at most one parent each. If no ancestor has a decorator, an
interface lends its own, where none is nearer; and if none has one either, the entity stays
without. -/
theorem decorators_passed_down (hnodup : m.entityNames.Nodup) :
    ∃ decorator : Entity → Option String,
      propagateDecorators m =
        { m with entities := m.entities.map fun e => { e with decorator := decorator e } } ∧
      ∀ e ∈ m.entities, Decorates m e (decorator e) ∧
        (m.SingleParents e.name → e.decorator = none →
          (∃ b, m.Ancestor e.name b ∧ b.decorator.isSome) →
            ∃ a, m.Ancestor e.name a ∧ a.decorator.isSome ∧ decorator e = a.decorator ∧
              ∀ b n, m.Ancestor e.name b → b.decorator.isSome →
                Within m.Extends n e.name b.name → Within m.Extends n e.name a.name) := by
  refine ⟨_, propagateDecorators_eq hnodup, fun e he => ?_⟩
  have hdecorates : Decorates m e (e.decorator.or (inheritedDecorator? m e.name)) := by
    refine decorates fun hnone x hx => ?_
    rw [Model.entity?_of_mem hnodup he] at hx
    cases hx
    exact hnone
  refine ⟨hdecorates, fun hsingle hnone hsome => ?_⟩
  obtain ⟨a, ha, hdecorator⟩ := hdecorates.ancestor hnone hsome
  exact ⟨a, ha.ancestor, ha.decorated, hdecorator, ha.smallest hsingle⟩

/-- An entity with a decorator, above a middle one. -/
def topLamp : Entity := { Entity.named "Top" with decorator := some "far" }

/-- Another one with a decorator. -/
def nearLamp : Entity := { Entity.named "Near" with decorator := some "near" }

/-- An entity with two parents, of which the second one has a decorator. -/
def deskLamp : Entity := { Entity.named "Desk" with parents := ["Middle", "Near"] }

/-- An entity with one parent. -/
def loneLamp : Entity := { Entity.named "Single" with parents := ["Middle"] }

/-- Two branches of parents, of which the earlier one leads to a decorator that is farther away. -/
def lamps : Model :=
  { Model.empty with entities := [
      topLamp,
      { Entity.named "Middle" with parents := ["Top"] },
      nearLamp,
      deskLamp,
      loneLamp] }

theorem near_above_desk : lamps.Extends "Desk" "Near" := by
  show "Near" ∈ lamps.linksOf (·.parents) "Desk"
  decide

/-- What has the far decorator is not one step away from the desk lamp. -/
theorem far_from_desk (ha : lamps.Ancestor "Desk" a) (hfar : a.decorator = some "far") :
    ¬Within lamps.Extends 1 "Desk" a.name := by
  have htop : ∀ a ∈ lamps.entities, a.decorator = some "far" → a.name = "Top" := by decide
  have hdirect : "Top" ∉ lamps.linksOf (·.parents) "Desk" := by decide
  rw [htop a (Model.entity?_mem ha.1) hfar]
  exact fun hwithin => hwithin.of_one.elim (by decide) hdirect

theorem lamps_above_single {z : String} (h : ReflTransGen lamps.Extends "Single" z) :
    z ∈ ["Single", "Middle", "Top"] := by
  have hlinks : ∀ y ∈ ["Single", "Middle", "Top"], ∀ z ∈ lamps.linksOf (·.parents) y,
      z ∈ ["Single", "Middle", "Top"] := by decide
  induction h with
  | refl => exact List.mem_cons_self
  | tail _ hstep ih => exact hlinks _ ih _ hstep

/-- The desk lamp takes the decorator behind its first parent, and its second parent, which has
one too, is behind a later branch; the single lamp takes the nearest one. -/
theorem lamps_passed_down : lamps.entityNames.Nodup ∧ lamps.SingleParents "Single" ∧
    (∃ a, lamps.Bequeaths "Desk" a ∧ a.decorator = some "far" ∧
      lamps.Branches "Desk" a.name "Near") ∧
    ∃ a, lamps.Ancestor "Single" a ∧ a.decorator = some "far" ∧
      ∀ b n, lamps.Ancestor "Single" b → b.decorator.isSome →
        Within lamps.Extends n "Single" b.name → Within lamps.Extends n "Single" a.name := by
  have hnodup : lamps.entityNames.Nodup := by decide
  have hsingle : lamps.SingleParents "Single" := by
    have hone : ∀ z ∈ ["Single", "Middle", "Top"], ∀ p ∈ lamps.linksOf (·.parents) z,
        ∀ q ∈ lamps.linksOf (·.parents) z, p = q := by decide
    exact fun z p q hz hp hq => hone z (lamps_above_single hz) p hp q hq
  have hrun : ∀ e ∈ (propagateDecorators lamps).entities, e.name ∈ ["Desk", "Single"] →
      e.decorator = some "far" := by
    decide +kernel
  have hnear : lamps.Ancestor "Desk" nearLamp := ⟨by decide +kernel, .single near_above_desk⟩
  have hfar : lamps.Ancestor "Single" topLamp := by
    have hmiddle : "Middle" ∈ lamps.linksOf (·.parents) "Single" := by decide
    have htop : "Top" ∈ lamps.linksOf (·.parents) "Middle" := by decide
    exact ⟨by decide +kernel, .tail (.single hmiddle) htop⟩
  obtain ⟨decorator, heq, hall⟩ := decorators_passed_down hnodup
  have hdecorator : ∀ e ∈ lamps.entities, e.name ∈ ["Desk", "Single"] →
      decorator e = some "far" := by
    intro e he hname
    refine hrun { e with decorator := decorator e } ?_ hname
    rw [heq]
    exact List.mem_map_of_mem he
  refine ⟨hnodup, hsingle, ?_, ?_⟩
  · obtain ⟨a, ha, hfrom⟩ := (hall deskLamp (by decide)).1.ancestor rfl ⟨nearLamp, hnear, rfl⟩
    rw [hdecorator deskLamp (by decide) (by decide)] at hfrom
    refine ⟨a, ha, hfrom.symm, (ha.nearest nearLamp 1 hnear rfl ?_).resolve_left ?_⟩
    · exact .step near_above_desk .refl
    · exact far_from_desk ha.ancestor hfrom.symm
  · obtain ⟨a, ha, -, hfrom, hnearest⟩ :=
      (hall loneLamp (by decide)).2 hsingle rfl ⟨topLamp, hfar, rfl⟩
    rw [hdecorator loneLamp (by decide) (by decide)] at hfrom
    exact ⟨a, ha, hfrom.symm, hnearest⟩

/-- An entity does not always take the decorator of its nearest ancestor with one. -/
theorem decorators_not_always_nearest : ¬∀ (m : Model) (e : Entity), Hierarchy.check m = .ok () →
    m.entityNames.Nodup → e ∈ m.entities → e.decorator = none →
    (∃ b, m.Ancestor e.name b ∧ b.decorator.isSome) →
    ∃ e' a, e' ∈ (propagateDecorators m).entities ∧ e'.name = e.name ∧
      m.Ancestor e.name a ∧ a.decorator.isSome ∧ e'.decorator = a.decorator ∧
      ∀ b n, m.Ancestor e.name b → b.decorator.isSome → Within m.Extends n e.name b.name →
        Within m.Extends n e.name a.name := by
  intro h
  have hfar : ∀ e ∈ (propagateDecorators lamps).entities, e.name = "Desk" →
      e.decorator = some "far" := by
    decide +kernel
  have hancestor : lamps.Ancestor "Desk" nearLamp := ⟨by decide +kernel, .single near_above_desk⟩
  obtain ⟨e', a, he', hname, ha, -, hdecorator, hnearest⟩ :=
    h lamps deskLamp (by decide +kernel) (by decide) (by decide) rfl ⟨nearLamp, hancestor, rfl⟩
  rw [hfar e' he' hname] at hdecorator
  have hwithin := hnearest nearLamp 1 hancestor rfl (.step near_above_desk .refl)
  exact far_from_desk ha hdecorator.symm hwithin

end Hierarchy

end EntitySchema
