import EntitySchema.Proofs.ClosedHierarchy
import EntitySchema.Proofs.Inheritance

/-! Layers of a checked hierarchy. Parents have tables and interfaces have none, and
interfaces extend nothing; so paths of parents come before paths of interfaces,
and what is visible on an entity is visible on all that inherit from it. -/

namespace EntitySchema

open Relation (ReflTransGen TransGen)
open Entity (IsChange SameStanding isChange_sameStanding)
open Model (Evolves)

variable {m m' : Model} {a b c name : String} {e : Entity}

/-! ### What the check makes sure of -/

namespace Hierarchy

/-- Following links from the entity leads back to it. -/
theorem inCycle_iff {links : Entity → List String} :
    inCycle m links a = true ↔ TransGen (fun c d => d ∈ m.linksOf links c) a a := by
  unfold inCycle
  rw [List.contains_iff_mem, Closure.mem_reach]
  constructor
  · rintro ⟨-, -, w, hw, hpath⟩
    exact .head' hw (Closure.path_mono hpath fun _ _ h => h.2.2)
  · intro h
    obtain ⟨w, hw, hpath⟩ := TransGen.head'_iff.mp h
    refine ⟨Model.mem_entityNames_of_link hw, by simp, w, hw, Closure.path_mono hpath ?_⟩
    exact fun c d h => ⟨Model.mem_entityNames_of_link h, by simp, h⟩

theorem checkInterface_ok_iff : checkInterface m e b = .ok () ↔
    ∃ i, m.entity? b = some i ∧ i.isAbstract = true := by
  unfold checkInterface
  cases m.entity? b <;> simp

theorem checkParent_ok_iff : checkParent m e b = .ok () ↔
    ∃ p, m.entity? b = some p ∧ p.isAbstract = false := by
  unfold checkParent
  cases m.entity? b <;> simp

/-- What the check of one entity accepts. -/
structure Accepts (m : Model) (e : Entity) : Prop where
  interfaces : ∀ b ∈ e.implements, ∃ i, m.entity? b = some i ∧ i.isAbstract = true
  rootless : e.isAbstract = true → e.parents = []
  parents : ∀ b ∈ e.parents, ∃ p, m.entity? b = some p ∧ p.isAbstract = false
  noParentCircle : ¬TransGen m.Extends e.name e.name
  noInterfaceCircle : ¬TransGen m.Implements e.name e.name

theorem checkEntity_ok_iff : checkEntity m e = .ok () ↔ Accepts m e := by
  have hroot : ¬(e.isAbstract && !e.parents.isEmpty) = true ↔
      (e.isAbstract = true → e.parents = []) := by
    simp
  have hextends : inCycle m (·.parents) e.name = true ↔ TransGen m.Extends e.name e.name :=
    inCycle_iff
  have himplements : inCycle m (·.implements) e.name = true ↔
      TransGen m.Implements e.name e.name := inCycle_iff
  unfold checkEntity
  constructor
  · intro h
    obtain ⟨_, hinterfaces, h⟩ := Except.bind_ok h
    obtain ⟨hrootless, h⟩ := Except.guard_ok h
    obtain ⟨_, hparents, h⟩ := Except.bind_ok h
    obtain ⟨hnot, h⟩ := Except.guard_ok h
    refine ⟨fun b hb => checkInterface_ok_iff.mp (Except.forM_ok hinterfaces b hb),
      hroot.mp hrootless, fun b hb => checkParent_ok_iff.mp (Except.forM_ok hparents b hb),
      mt hextends.mpr hnot, mt himplements.mpr fun hin => ?_⟩
    rw [if_pos hin] at h
    cases h
  · rintro ⟨hinterfaces, hrootless, hparents, hextendsNot, himplementsNot⟩
    have hfirst : e.implements.forM (checkInterface m e) = .ok () :=
      Except.forM_ok_iff.mpr fun b hb => checkInterface_ok_iff.mpr (hinterfaces b hb)
    have hsecond : e.parents.forM (checkParent m e) = .ok () :=
      Except.forM_ok_iff.mpr fun b hb => checkParent_ok_iff.mpr (hparents b hb)
    rw [hfirst]
    show (if _ then _ else _) = _
    rw [if_neg (hroot.mpr hrootless), hsecond]
    show (if _ then _ else _) = _
    rw [if_neg (mt hextends.mp hextendsNot), if_neg (mt himplements.mp himplementsNot)]
    rfl

theorem check_ok_iff : check m = .ok () ↔ ∀ e ∈ m.entities, Accepts m e := by
  unfold check
  simp only [Except.forM_ok_iff, checkEntity_ok_iff]

end Hierarchy

namespace Model

/-- Interfaces are abstract and extend nothing; parents are not abstract. -/
structure Layered (m : Model) : Prop where
  interface : ∀ {a b}, m.Implements a b → ∃ e, m.entity? b = some e ∧ e.isAbstract = true
  parent : ∀ {a b}, m.Extends a b → ∃ e, m.entity? b = some e ∧ e.isAbstract = false
  rootless : ∀ {a b e}, m.entity? a = some e → e.isAbstract = true → ¬m.Extends a b

theorem layered_of_check (h : Hierarchy.check m = .ok ()) : m.Layered := by
  have haccepts : ∀ {a e}, m.entity? a = some e → Hierarchy.Accepts m e :=
    fun he => Hierarchy.check_ok_iff.mp h _ (entity?_mem he)
  refine ⟨fun hab => ?_, fun hab => ?_, fun he habstract hab => ?_⟩
  · obtain ⟨e, he, hb⟩ := mem_linksOf.mp hab
    exact (haccepts he).interfaces _ hb
  · obtain ⟨e, he, hb⟩ := mem_linksOf.mp hab
    exact (haccepts he).parents _ hb
  · obtain ⟨e', he', hb⟩ := mem_linksOf.mp hab
    rw [he] at he'
    cases he'
    rw [(haccepts he).rootless habstract] at hb
    cases hb

/-- All parents and interfaces were found. -/
theorem closed_of_check (h : Hierarchy.check m = .ok ()) : m.Closed := by
  intro e he b hb
  have haccepts := Hierarchy.check_ok_iff.mp h e he
  rcases List.mem_append.mp hb with hb | hb
  · exact mem_entityNames.mpr ((haccepts.parents b hb).imp fun _ h => h.1)
  · exact mem_entityNames.mpr ((haccepts.interfaces b hb).imp fun _ h => h.1)

/-- What interfaces lead to is an interface. -/
theorem Layered.interface_of_path (hm : m.Layered) (hpath : TransGen m.Implements a b) :
    ∃ e, m.entity? b = some e ∧ e.isAbstract = true := by
  obtain ⟨c, -, hstep⟩ := TransGen.tail'_iff.mp hpath
  exact hm.interface hstep

theorem Layered.rootless_of_path (hm : m.Layered) (hpath : TransGen m.Implements a b) :
    ¬m.Extends b c := by
  obtain ⟨e, he, habstract⟩ := hm.interface_of_path hpath
  exact hm.rootless he habstract

/-! ### Entities of the same standing -/

theorem Closed.standing (hm : m.Closed) (h : Evolves SameStanding [] m m') : m'.Closed := by
  intro e' he' b hb
  obtain ⟨e, he, hsame⟩ := (h.mem he').resolve_right (by simp)
  rw [hsame.parents, hsame.implements] at hb
  rw [h.entityNames isChange_sameStanding, List.append_nil]
  exact hm e he b hb

theorem Layered.standing (hm : m.Layered) (h : Evolves SameStanding [] m m') : m'.Layered := by
  refine ⟨fun {a b} hab => ?_, fun {a b} hab => ?_, fun {a b e'} he' habstract hab => ?_⟩
  · rw [implements_standing h] at hab
    obtain ⟨e, he, habstract⟩ := hm.interface hab
    obtain ⟨e', he', hsame⟩ := h.entity? isChange_sameStanding he
    exact ⟨e', he', hsame.isAbstract.trans habstract⟩
  · rw [extends_standing h] at hab
    obtain ⟨e, he, hconcrete⟩ := hm.parent hab
    obtain ⟨e', he', hsame⟩ := h.entity? isChange_sameStanding he
    exact ⟨e', he', hsame.isAbstract.trans hconcrete⟩
  · rw [extends_standing h] at hab
    obtain ⟨e, he, hsame⟩ := h.entity?_back isChange_sameStanding he' (by simp)
    exact hm.rootless he (hsame.isAbstract ▸ habstract) hab

section Lineages

variable {R : Entity → Entity → Prop} (hR : IsChange R)
  (hstanding : ∀ e e', R e e' → SameStanding e e') (h : Evolves R [] m m')

include hR hstanding h

/-- When entities stay where they are, the lineage stays, with what they have become. -/
theorem mem_lineage_change (he : e ∈ m.lineage a) :
    ∃ e' ∈ m'.lineage a, m'.entity? e.name = some e' ∧ R e e' := by
  obtain ⟨he, hinherits⟩ := mem_lineage.mp he
  obtain ⟨e', he', hsame⟩ := h.entity? hR he
  refine ⟨e', mem_lineage.mpr ⟨entity?_self he', ?_⟩, he', hsame⟩
  rw [inherits_standing (h.mono hstanding), hR.name hsame]
  exact hinherits

theorem mem_lineage_change_back {e' : Entity} (he' : e' ∈ m'.lineage a) :
    ∃ e ∈ m.lineage a, m.entity? e'.name = some e ∧ R e e' := by
  obtain ⟨he', hinherits⟩ := mem_lineage.mp he'
  obtain ⟨e, he, hsame⟩ := h.entity?_back hR he' (by simp)
  refine ⟨e, mem_lineage.mpr ⟨entity?_self he, ?_⟩, he, hsame⟩
  rw [← inherits_standing (h.mono hstanding), ← hR.name hsame]
  exact hinherits

end Lineages

/-- Visible names change as the names of fields do. -/
theorem Sees.carry (change : String → String) {field : String} (h : Evolves SameStanding [] m m')
    (hfields : ∀ {name e e'}, m.entity? name = some e → m'.entity? name = some e' →
      ∀ f ∈ e.fields, ∃ f' ∈ e'.fields, f'.name = change f.name)
    (hsees : m.Sees a field) : m'.Sees a (change field) := by
  obtain ⟨e, he, f, hf, rfl⟩ := sees_iff.mp hsees
  obtain ⟨e', hlineage, he', -⟩ := mem_lineage_change isChange_sameStanding (fun _ _ => id) h he
  obtain ⟨f', hf', hname⟩ := hfields (mem_lineage.mp he).1 he' f hf
  exact sees_iff.mpr ⟨e', hlineage, f', hf', hname⟩

/-! ### Paths through the layers -/

/-- Behind an interface there are only interfaces. -/
theorem Inherits.trans (hm : m.Layered) (hab : m.Inherits a b) (hbc : m.Inherits b c) :
    m.Inherits a c := by
  obtain ⟨x, hax, hxb⟩ := hab
  obtain ⟨y, hby, hyc⟩ := hbc
  rcases ReflTransGen.cases_tail hxb with rfl | ⟨z, _, hzb⟩
  · exact ⟨y, hax.trans hby, hyc⟩
  · obtain ⟨e, he, habstract⟩ := hm.interface hzb
    rcases ReflTransGen.cases_head hby with rfl | ⟨z', hstep, _⟩
    · exact ⟨x, hax, hxb.trans hyc⟩
    · exact absurd hstep (hm.rootless he habstract)

theorem Sees.inherits {field : String} (hm : m.Layered) (hab : m.Inherits a b)
    (h : m.Sees b field) : m.Sees a field := by
  obtain ⟨e, he, hf⟩ := sees_iff.mp h
  obtain ⟨he, hbe⟩ := mem_lineage.mp he
  exact sees_iff.mpr ⟨e, mem_lineage.mpr ⟨he, hab.trans hm hbe⟩, hf⟩

theorem Keyed.inherits {field : String} (hm : m.Layered) (hab : m.Inherits a b)
    (h : m.Keyed b field) : m.Keyed a field := by
  obtain ⟨e, he, hkey⟩ := keyed_iff.mp h
  obtain ⟨he, hbe⟩ := mem_lineage.mp he
  exact keyed_iff.mpr ⟨e, mem_lineage.mpr ⟨he, hab.trans hm hbe⟩, hkey⟩

/-- Parents of an entity with a table have tables. -/
theorem Layered.concrete_of_extends (hm : m.Layered) (hpath : ReflTransGen m.Extends a b)
    (ha : ∃ e, m.entity? a = some e ∧ e.isAbstract = false) :
    ∃ e, m.entity? b = some e ∧ e.isAbstract = false := by
  rcases ReflTransGen.cases_tail hpath with rfl | ⟨c, _, hcb⟩
  · exact ha
  · exact hm.parent hcb

theorem mem_ownInterfaces : e ∈ m.ownInterfaces name ↔
    m.entity? e.name = some e ∧ e.name ≠ name ∧ TransGen m.Implements name e.name := by
  unfold ownInterfaces
  rw [mem_entitiesFrom]
  refine and_congr_right fun _ => and_congr_right fun hne => ?_
  rw [follows_iff hne fun w hw => hw, TransGen.head'_iff]
  rfl

end Model

end EntitySchema
