import EntitySchema.Completion
import EntitySchema.Proofs.Naming

/-! Keys along the hierarchy. Copying keys adds fields and keys; a discriminator takes
the place of the first field of its name, with one warning if that was declared;
labels are assigned; and interfaces lose their many-to-many fields to the
entities that implement them. -/

namespace EntitySchema

open Relation (TransGen)
open Model (Evolves)
open Entity (Gains SameStanding OnlyAt isChange_gains isChange_sameStanding isChange_onlyAt)

variable {m m' : Model} {name : String}

/-! ### The hierarchy stays -/

namespace Model

theorem linksOf_standing {links : Entity → List String}
    (hlinks : ∀ e e', SameStanding e e' → links e' = links e) (h : Evolves SameStanding [] m m') :
    m'.linksOf links name = m.linksOf links name := by
  unfold linksOf
  cases he : m.entity? name with
  | some e =>
    obtain ⟨e', he', hsame⟩ := h.entity? isChange_sameStanding he
    rw [he']
    exact hlinks e e' hsame
  | none =>
    cases he' : m'.entity? name with
    | none => rfl
    | some e' =>
      obtain ⟨e, hm, _⟩ := h.entity?_back isChange_sameStanding he' (by simp)
      rw [he] at hm
      cases hm

theorem extends_standing (h : Evolves SameStanding [] m m') : m'.Extends = m.Extends := by
  funext a b
  unfold Extends
  rw [linksOf_standing (fun _ _ h => h.parents) h]

theorem implements_standing (h : Evolves SameStanding [] m m') : m'.Implements = m.Implements := by
  funext a b
  unfold Implements
  rw [linksOf_standing (fun _ _ h => h.implements) h]

theorem inherits_standing (h : Evolves SameStanding [] m m') : m'.Inherits = m.Inherits := by
  funext a b
  unfold Inherits
  rw [extends_standing h, implements_standing h]

/-- Two names stand above each other exactly when a path of parents says so. -/
theorem isAbove_iff {upper lower : String} : m.isAbove upper lower = true ↔
    upper ∈ m.entityNames ∧ upper ≠ lower ∧ TransGen m.Extends lower upper := by
  unfold isAbove
  rw [List.any_eq_true]
  constructor
  · rintro ⟨e, he, hname⟩
    obtain rfl : e.name = upper := by simpa using hname
    obtain ⟨hself, hne, hpath⟩ := mem_ancestors.mp he
    exact ⟨mem_entityNames.mpr ⟨e, hself⟩, hne, hpath⟩
  · rintro ⟨hmem, hne, hpath⟩
    obtain ⟨e, he⟩ := mem_entityNames.mp hmem
    obtain rfl := entity?_name he
    exact ⟨e, mem_ancestors.mpr ⟨he, hne, hpath⟩, by simp⟩

theorem isAbove_standing (h : Evolves SameStanding [] m m') (upper lower : String) :
    m'.isAbove upper lower = m.isAbove upper lower := by
  rw [Bool.eq_iff_iff, isAbove_iff, isAbove_iff, extends_standing h,
    h.entityNames isChange_sameStanding, List.append_nil]

/-- A root has a table and no parents, and a path of parents leads to it. -/
theorem isRoot_iff : m.isRoot name = true ↔ ∃ e, m.entity? name = some e ∧
    e.isAbstract = false ∧ e.parents = [] ∧
      ∃ lower ∈ m.entities, lower.name ≠ name ∧ TransGen m.Extends lower.name name := by
  unfold isRoot
  cases he : m.entity? name with
  | none => simp
  | some e =>
    have hmem := mem_entityNames.mpr ⟨e, he⟩
    have hbelow : (!(m.descendants name).isEmpty) = true ↔
        ∃ lower ∈ m.entities, lower.name ≠ name ∧ TransGen m.Extends lower.name name := by
      simp [descendants, isAbove_iff, hmem, eq_comm (a := name)]
    simp only [Bool.and_eq_true, hbelow, Bool.not_eq_true', List.isEmpty_iff, and_assoc,
      Option.some.injEq, exists_eq_left']

/-- A root is one also where more extends more, and its entity stands as it did. -/
theorem isRoot_mono (hextends : ∀ a b, m.Extends a b → m'.Extends a b)
    (hentity : ∀ {e}, m.entity? name = some e → ∃ e', m'.entity? name = some e' ∧
      SameStanding e e') (h : m.isRoot name = true) : m'.isRoot name = true := by
  obtain ⟨e, he, hconcrete, hparents, lower, -, hne, hpath⟩ := isRoot_iff.mp h
  obtain ⟨e', he', hsame⟩ := hentity he
  have hpath := TransGen.mono hextends _ _ hpath
  obtain ⟨_, hfirst, -⟩ := TransGen.head'_iff.mp hpath
  obtain ⟨lower', hlower', -⟩ := mem_linksOf.mp hfirst
  have hname := entity?_name hlower'
  exact isRoot_iff.mpr ⟨e', he', hsame.isAbstract.trans hconcrete, hsame.parents.trans hparents,
    lower', entity?_mem hlower', hname ▸ hne, hname ▸ hpath⟩

theorem descendants_names_standing (h : Evolves SameStanding [] m m') :
    (m'.descendants name).map (·.name) = (m.descendants name).map (·.name) := by
  have hfilter : ∀ m : Model, (m.descendants name).map (·.name) =
      m.entityNames.filter fun lower => lower ≠ name && m.isAbove name lower := by
    intro m
    unfold descendants entityNames
    rw [List.filter_map]
    rfl
  rw [hfilter, hfilter, h.entityNames isChange_sameStanding, List.append_nil]
  simp only [isAbove_standing h]

theorem isRoot_standing (h : Evolves SameStanding [] m m') : m'.isRoot name = m.isRoot name := by
  unfold isRoot
  have hempty : (m'.descendants name).isEmpty = (m.descendants name).isEmpty := by
    rw [← List.isEmpty_map, descendants_names_standing h, List.isEmpty_map]
  cases he : m.entity? name with
  | some e =>
    obtain ⟨e', he', hsame⟩ := h.entity? isChange_sameStanding he
    rw [he', hempty]
    simp only [hsame.isAbstract, hsame.parents]
  | none =>
    cases he' : m'.entity? name with
    | none => rfl
    | some e' =>
      obtain ⟨e, hm, _⟩ := h.entity?_back isChange_sameStanding he' (by simp)
      rw [he] at hm
      cases hm

end Model

/-! ### Keys of interfaces and parents -/

namespace Hierarchy

theorem copyInterfaceKeys_gains (name : String) (m : Model) :
    Evolves Gains [] m (copyInterfaceKeys name m) := by
  unfold copyInterfaceKeys
  split
  · exact .refl isChange_gains m
  · next e _ =>
    exact .changeEntity isChange_gains fun e' _ => ⟨interfaceKeyCopies m e, [], [], by simp⟩

theorem addParentKeyField_gains (parent : String) (e : Entity) (f : Field) :
    Gains e (addParentKeyField parent e f) := by
  unfold addParentKeyField
  split
  · exact isChange_gains.refl e
  · exact ⟨[], [{ f.referenceCopy parent .inheritedKey with system := true }], [], by simp⟩

theorem leadWithKey_gains (fields : List String) (e : Entity) : Gains e (leadWithKey fields e) := by
  unfold leadWithKey
  split
  · exact isChange_gains.refl e
  · exact ⟨[], [], [{ fields }], by simp⟩

theorem addParentKeyFields_gains (parent : String) : ∀ (fields : List Field) (e : Entity),
    Gains e (fields.foldl (addParentKeyField parent) e)
  | [], e => isChange_gains.refl e
  | f :: rest, e => isChange_gains.trans (addParentKeyField_gains parent e f)
      (addParentKeyFields_gains parent rest _)

theorem copyParentKey_gains {parent : String} (h : copyParentKey name parent m = .ok m') :
    Evolves Gains [] m m' := by
  unfold copyParentKey at h
  split at h
  · cases h
  · cases h
    exact .changeEntity isChange_gains fun e _ =>
      isChange_gains.trans (addParentKeyFields_gains parent _ e) (leadWithKey_gains _ _)

/-- Only fields and keys are added, in a hierarchy that was checked. -/
theorem propagateKeys_ok {u : Unit} (h : Ends propagateKeys m u m') :
    check m = .ok () ∧ Evolves Gains [] m m' := by
  unfold propagateKeys at h
  obtain ⟨_, hcheck, h⟩ := Pass.check_bind h
  obtain ⟨_, m₁, hinterfaces, hparents⟩ := h.get_bind.bind
  refine ⟨Except.mapError_ok (g := Failure.hierarchy) hcheck, Evolves.trans isChange_gains
    (.forM isChange_gains ?_ hinterfaces) (.forM isChange_gains ?_ hparents.get_bind)⟩
  · intro name _ m m' hstep
    obtain rfl := Pass.change_ends hstep
    exact copyInterfaceKeys_gains name m
  · intro name _ m m' hstep
    refine .forM isChange_gains ?_ hstep.get_bind
    intro parent _ m m' hstep
    exact copyParentKey_gains (Pass.step_ends hstep)

end Hierarchy

end EntitySchema
