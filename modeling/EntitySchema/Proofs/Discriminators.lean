import EntitySchema.Proofs.DistinctFields
import EntitySchema.Proofs.TopDown

/-! Discriminators, one entity after the other. In a checked hierarchy the turn of an entity
changes that entity only, and what it becomes depends on the hierarchy and not on the turns
before; so adding discriminators changes all entities at once, and a second time none. -/

namespace EntitySchema

open Relation (TransGen)
open Model (Evolves)
open Entity (SameStanding isChange_sameStanding)

variable {m m' s : Model} {name : String} {e e' : Entity} {f : Field}

/-! ### Fields of one name -/

namespace Entity

/-- When names are different, at most one field has the name. -/
theorem filter_name : ∀ {fields : List Field}, (fields.map (·.name)).Nodup →
    fields.filter (·.name = name) = (fields.find? (·.name = name)).toList
  | [], _ => rfl
  | f :: rest, h => by
    obtain ⟨hf, hrest⟩ := List.nodup_cons.mp h
    rw [List.filter_cons, List.find?_cons]
    by_cases hname : f.name = name
    · have hnone : rest.filter (·.name = name) = [] := by
        refine List.filter_eq_nil_iff.mpr fun g hg heq => hf ?_
        exact List.mem_map.mpr ⟨g, hg, (of_decide_eq_true heq).trans hname.symm⟩
      simp [hname, hnone]
    · simp [hname, filter_name hrest]

/-- When names are different, the field that is erased is the only one of its name. -/
theorem eraseP_name : ∀ {fields : List Field}, (fields.map (·.name)).Nodup →
    fields.eraseP (·.name = name) = fields.filter (·.name ≠ name)
  | [], _ => rfl
  | f :: rest, h => by
    obtain ⟨hf, hrest⟩ := List.nodup_cons.mp h
    rw [List.eraseP_cons, List.filter_cons]
    by_cases hname : f.name = name
    · have hall : rest.filter (·.name ≠ name) = rest := by
        refine List.filter_eq_self.mpr fun g hg => ?_
        have hne : g.name ≠ name := fun heq =>
          hf (List.mem_map.mpr ⟨g, hg, heq.trans hname.symm⟩)
        simpa using hne
      rw [hall]
      simp [hname]
    · rw [eraseP_name hrest]
      simp [hname]

end Entity

namespace Hierarchy

instance : Decidable (m.InHierarchy e) :=
  inferInstanceAs (Decidable (m.isRoot e.name = true ∨ e.parents ≠ []))

/-- The fields that do not have the discriminator's name. -/
def others (e : Entity) : List Field := e.fields.filter (·.name ≠ discriminatorName)

/-- The entity as discriminators leave it. -/
def discriminated (m : Model) (e : Entity) : Entity :=
  if m.InHierarchy e then { e with fields := leading m e.name ++ others e } else e

/-- The model with all its entities as discriminators leave them. -/
def discriminatedModel (m : Model) : Model :=
  { m with entities := m.entities.map (discriminated m) }

/-- The warnings that an entity gives rise to. -/
def warned (m : Model) (e : Entity) : List Warning :=
  if m.InHierarchy e then replacements e else []

/-! ### One turn -/

theorem inHierarchy_standing (h : Evolves SameStanding [] m s) :
    s.InHierarchy e ↔ m.InHierarchy e := by
  unfold Model.InHierarchy
  rw [Model.isRoot_standing h]

theorem leading_standing (h : Evolves SameStanding [] m s) :
    leading s name = leading m name := by
  unfold leading rootDiscriminator members
  rw [Model.isRoot_standing h, Model.descendants_names_standing h]

theorem discriminated_standing (h : Evolves SameStanding [] m s) (e : Entity) :
    discriminated s e = discriminated m e := by
  unfold discriminated
  rw [leading_standing h]
  simp only [inHierarchy_standing h]

theorem warned_standing (h : Evolves SameStanding [] m s) (e : Entity) :
    warned s e = warned m e := by
  unfold warned
  simp only [inHierarchy_standing h]

theorem discriminated_same (m : Model) (e : Entity) : SameStanding e (discriminated m e) := by
  unfold discriminated
  split <;> exact ⟨rfl, rfl, rfl, rfl⟩

/-- Only the entity whose turn it is changes. -/
theorem changeEntity_entities {before after : List Entity} {change : Entity → Entity}
    (hentities : m.entities = before ++ e :: after) (hnodup : m.entityNames.Nodup) :
    m.changeEntity e.name change = { m with entities := before ++ change e :: after } := by
  have hbefore : ∀ x ∈ before, decide (x.name = e.name) = false := by
    intro x hx
    rw [Model.entityNames, hentities, List.map_append, List.map_cons] at hnodup
    have hdisjoint := (List.nodup_append.mp hnodup).2.2
    exact decide_eq_false (hdisjoint x.name (List.mem_map_of_mem hx) e.name List.mem_cons_self)
  unfold Model.changeEntity
  rw [hentities, FieldCase.changeFirst_append (by simp) hbefore]

/-- The discriminator goes before fields of other names. -/
theorem insertField_front (hnew : ∀ g ∈ e.fields, g.name ≠ f.name) :
    e.insertField 0 f = .ok { e with fields := f :: e.fields } := by
  have hfree : e.hasField f.name = false := by simpa [Entity.hasField] using hnew
  unfold Entity.insertField
  rw [hfree, if_neg Bool.false_ne_true]
  rfl

/-- In its turn an entity becomes what discriminators make of it, and nothing else changes. -/
theorem discriminate_turn {before after : List Entity}
    (hentities : m.entities = before ++ e :: after) (hnodup : m.entityNames.Nodup)
    (hfields : e.DistinctFields) : Ends (discriminate e.name) m (warned m e)
      { m with entities := before ++ discriminated m e :: after } := by
  have hfound : m.entity? e.name = some e :=
    Model.entity?_of_mem hnodup (hentities ▸ by simp)
  have hstripped : (e.removeField discriminatorName).fields = others e :=
    Entity.eraseP_name hfields
  unfold discriminate
  refine Ends.get_bind_of ?_
  rw [hfound]
  dsimp only
  by_cases hin : m.InHierarchy e
  · have hguard : (m.isRoot e.name || !e.parents.isEmpty) = true := by
      simpa [Model.InHierarchy] using hin
    rw [if_pos hguard, warned, if_pos hin, discriminated, if_pos hin]
    refine Ends.bind_of (a := ()) (Pass.change_of (changeEntity_entities hentities hnodup)) ?_
    split
    · next hroot =>
      have hnew : ∀ g ∈ (e.removeField discriminatorName).fields, g.name ≠ discriminatorName := by
        rw [hstripped]
        intro g hg
        simpa using (List.mem_filter.mp hg).2
      have hinsert : (e.removeField discriminatorName).insertField 0 (rootDiscriminator m e.name) =
          .ok { e with fields := leading m e.name ++ others e } := by
        rw [insertField_front hnew, hstripped, leading, if_pos hroot]
        rfl
      have hnodup' : ((before ++ e.removeField discriminatorName :: after).map (·.name)).Nodup := by
        rw [Model.entityNames, hentities] at hnodup
        simpa [Entity.removeField] using hnodup
      rw [hinsert]
      refine Ends.bind_of (a := _) rfl (Ends.bind_of (a := ()) (Pass.change_of ?_) rfl)
      exact changeEntity_entities (e := e.removeField discriminatorName)
        (m := { m with entities := before ++ e.removeField discriminatorName :: after }) rfl hnodup'
    · next hroot =>
      have hsame : e.removeField discriminatorName =
          { e with fields := leading m e.name ++ others e } := by
        rw [leading, if_neg hroot, List.nil_append, ← hstripped]
        rfl
      rw [hsame]
      rfl
  · have hguard : ¬(m.isRoot e.name || !e.parents.isEmpty) = true := by
      simpa [Model.InHierarchy] using hin
    rw [if_neg hguard, warned, if_neg hin, discriminated, if_neg hin, ← hentities]
    rfl

/-! ### All turns -/

theorem discriminateEach_run : ∀ {todo done : List Entity} {s : Model},
    s.entities = done ++ todo → Evolves SameStanding [] m s → s.entityNames.Nodup →
    (∀ e ∈ todo, e.DistinctFields) →
    Ends ((todo.map (·.name)).mapM discriminate) s (todo.map (warned m))
      { s with entities := done ++ todo.map (discriminated m) }
  | [], done, s, hentities, _, _, _ => by
    have hsame : done ++ [].map (discriminated m) = s.entities := hentities.symm
    rw [hsame]
    rfl
  | e :: rest, done, s, hentities, hs, hnodup, hfields => by
    obtain ⟨he, hrest⟩ := List.forall_mem_cons.mp hfields
    have hturn := discriminate_turn hentities hnodup he
    rw [warned_standing hs, discriminated_standing hs] at hturn
    have hsame : Evolves SameStanding [] s
        { s with entities := done ++ discriminated m e :: rest } := by
      refine .of_forall₂ ?_
      rw [hentities]
      have hrefl : ∀ es : List Entity, List.Forall₂ SameStanding es es := fun es =>
        List.forall₂_same.mpr fun x _ => isChange_sameStanding.refl x
      exact List.rel_append (hrefl done) (.cons (discriminated_same m e) (hrefl rest))
    have hsplit : done ++ discriminated m e :: rest = (done ++ [discriminated m e]) ++ rest := by
      simp
    have hothers := discriminateEach_run
      (s := { s with entities := done ++ discriminated m e :: rest }) hsplit
      (hs.trans_nil isChange_sameStanding hsame) (hsame.nodup isChange_sameStanding hnodup) hrest
    rw [List.append_assoc] at hothers
    rw [List.map_cons, List.mapM_cons]
    exact hturn.bind_of (hothers.bind_of rfl)

/-- The turns together change every entity once. -/
theorem addDiscriminators_run (hnodup : m.entityNames.Nodup) (hfields : m.DistinctFields) :
    Ends addDiscriminators m (m.entities.flatMap (warned m)) (discriminatedModel m) := by
  have hall := discriminateEach_run (List.nil_append m.entities).symm
    (.refl isChange_sameStanding m) hnodup hfields
  rw [List.flatMap_def]
  exact Ends.get_bind_of (hall.bind_of rfl)

theorem discriminatedModel_same (m : Model) : Evolves SameStanding [] m (discriminatedModel m) :=
  .map rfl fun e _ => discriminated_same m e

/-! ### A second run -/

theorem others_discriminated (m : Model) (e : Entity) : others (discriminated m e) = others e := by
  unfold discriminated
  split
  · have hleading : (leading m e.name).filter (·.name ≠ discriminatorName) = [] := by
      unfold leading
      split <;> rfl
    rw [others, List.filter_append, hleading, others, List.filter_filter]
    simp
  · rfl

theorem inHierarchy_discriminated (m : Model) (e : Entity) :
    m.InHierarchy (discriminated m e) ↔ m.InHierarchy e := by
  unfold Model.InHierarchy
  rw [(discriminated_same m e).name, (discriminated_same m e).parents]

theorem discriminated_twice (m : Model) (e : Entity) :
    discriminated m (discriminated m e) = discriminated m e := by
  by_cases hin : m.InHierarchy e
  · rw [discriminated, if_pos ((inHierarchy_discriminated m e).mpr hin), others_discriminated,
      (discriminated_same m e).name, discriminated, if_pos hin]
  · rw [discriminated, if_neg fun h => hin ((inHierarchy_discriminated m e).mp h)]

/-- The only field of the discriminator's name that is there is the discriminator. -/
theorem warned_discriminated (m : Model) (e : Entity) : warned m (discriminated m e) = [] := by
  unfold warned
  split
  · next hin =>
    have hfirst : (others e).find? (·.name = discriminatorName) = none := by
      simp [others, List.find?_eq_none]
    rw [inHierarchy_discriminated] at hin
    rw [discriminated, if_pos hin, replacements, Entity.field?, List.find?_append, hfirst, leading]
    by_cases hroot : m.isRoot e.name = true
    · rw [if_pos hroot]
      rfl
    · rw [if_neg hroot]
      rfl
  · rfl

/-- Where discriminators have been added, nothing is left to do. -/
theorem addDiscriminators_again (hnodup : m.entityNames.Nodup) (hfields : m.DistinctFields) :
    Ends addDiscriminators (discriminatedModel m) [] (discriminatedModel m) := by
  have hsame := discriminatedModel_same m
  have hnone : (discriminatedModel m).entities.flatMap (warned (discriminatedModel m)) = [] := by
    refine List.flatMap_eq_nil_iff.mpr fun e' he' => ?_
    obtain ⟨e, -, rfl⟩ := List.mem_map.mp he'
    rw [warned_standing hsame, warned_discriminated]
  have hentities : (m.entities.map (discriminated m)).map (discriminated (discriminatedModel m)) =
      m.entities.map (discriminated m) := by
    rw [List.map_map]
    refine List.map_congr_left fun e _ => ?_
    rw [Function.comp_apply, discriminated_standing hsame, discriminated_twice]
  have htwice : discriminatedModel (discriminatedModel m) = discriminatedModel m :=
    congrArg (fun entities => { m with entities }) hentities
  have hrun := addDiscriminators_run (hsame.nodup isChange_sameStanding hnodup)
    (addDiscriminators_distinct hnodup hfields (addDiscriminators_run hnodup hfields))
  rwa [hnone, htwice] at hrun

/-! ### The entities of a hierarchy -/

/-- The declared fields of the discriminator's name that an entity has lost. -/
def lost (e e' : Entity) : List Field :=
  e.fields.filter fun f =>
    f.name = discriminatorName && f.origin = .declared && !e'.fields.contains f

/-- An entity is warned about once for every declared field that it loses. -/
theorem warned_eq (m : Model) (he : e.DistinctFields) :
    warned m e = (lost e (discriminated m e)).map fun _ => replaced e.name := by
  unfold warned
  by_cases hin : m.InHierarchy e
  · have hgone : ∀ f ∈ e.fields, f.name = discriminatorName → f.origin = .declared →
        f ∉ (discriminated m e).fields := by
      intro f _ hname horigin hf
      rw [discriminated, if_pos hin] at hf
      rcases List.mem_append.mp hf with hf | hf
      · unfold leading at hf
        split at hf
        · rw [List.mem_singleton.mp hf] at horigin
          cases horigin
        · cases hf
      · exact absurd hname (by simpa using (List.mem_filter.mp hf).2)
    have hlost : lost e (discriminated m e) =
        (e.fields.filter (·.name = discriminatorName)).filter (·.origin = .declared) := by
      rw [List.filter_filter]
      refine List.filter_congr fun f hf => ?_
      by_cases hname : f.name = discriminatorName
      · by_cases horigin : f.origin = .declared
        · simp [hname, horigin, hgone f hf hname horigin]
        · simp [horigin]
      · simp [hname]
    rw [if_pos hin, hlost, Entity.filter_name he, replacements, Entity.field?]
    cases e.fields.find? (·.name = discriminatorName) with
    | none => rfl
    | some f => by_cases horigin : f.origin = .declared <;> simp [horigin]
  · have hkept : lost e e = [] := by
      refine List.filter_eq_nil_iff.mpr fun f hf hlost => ?_
      simp [hf] at hlost
    rw [if_neg hin, discriminated, if_neg hin, hkept]
    rfl

end Hierarchy

namespace Model

/-- These are the entities below the one of the name, in model order. -/
structure Below (m : Model) (name : String) (below : List Entity) : Prop where
  ordered : below.Sublist m.entities
  exact : ∀ x ∈ m.entities, x ∈ below ↔ TransGen m.Extends x.name name

theorem Acyclic.descendants_below (hm : m.Acyclic) (hname : name ∈ m.entityNames) :
    m.Below name (m.descendants name) := by
  refine ⟨List.filter_sublist, fun x hx => ?_⟩
  unfold descendants
  rw [List.mem_filter, Bool.and_eq_true, isAbove_iff]
  constructor
  · exact fun h => h.2.2.2.2
  · intro hpath
    have hne : x.name ≠ name := fun heq => hm.parents name (heq ▸ hpath)
    exact ⟨hx, by simpa using hne, hname, hne.symm, hpath⟩

end Model

/-- The field tells the records of these entities apart, and the system fills it in. -/
structure Field.TellsApart (members : List Entity) (f : Field) : Prop where
  name : f.name = Hierarchy.discriminatorName
  type : f.type = .enum (members.map fun e => Text.upperFirst e.name)
  origin : f.origin = .discriminator
  hidden : f.hidden = true
  auto : f.auto = true
  readonly : f.readonly = true

namespace Hierarchy

/-- What discriminators make of an entity, given the entities below it. -/
structure Classifies (below : List Entity) (e e' : Entity) : Prop where
  /-- Nothing but fields changes. -/
  same : { e' with fields := e.fields } = e
  root : e.isAbstract = false → e.parents = [] → below ≠ [] →
    ∃ f, e'.fields = f :: others e ∧ f.TellsApart (e :: below)
  child : e.parents ≠ [] → e'.fields = others e
  apart : e.parents = [] → e.isAbstract = true ∨ below = [] → e' = e

theorem discriminated_classifies (m : Model) (he : m.entity? e.name = some e) :
    Classifies (m.descendants e.name) e (discriminated m e) := by
  have hroot : m.isRoot e.name = true ↔
      e.isAbstract = false ∧ e.parents = [] ∧ m.descendants e.name ≠ [] := by
    simp [Model.isRoot, he, and_assoc]
  refine ⟨?_, fun hconcrete hnone hbelow => ?_, fun hparents => ?_, fun hnone hapart => ?_⟩
  · unfold discriminated
    split <;> rfl
  · have hroot := hroot.mpr ⟨hconcrete, hnone, hbelow⟩
    refine ⟨rootDiscriminator m e.name, ?_, ?_⟩
    · rw [discriminated, if_pos (.inl hroot), leading, if_pos hroot]
      rfl
    · refine ⟨rfl, ?_, rfl, rfl, rfl, rfl⟩
      show FieldType.enum (members m e.name) = _
      simp [members]
  · have hnot : ¬m.isRoot e.name = true := fun h => hparents (hroot.mp h).2.1
    rw [discriminated, if_pos (.inr hparents), leading, if_neg hnot]
    rfl
  · have hnot : ¬m.InHierarchy e := by
      rintro (h | h)
      · obtain ⟨hconcrete, -, hbelow⟩ := hroot.mp h
        rcases hapart with habstract | hempty
        · rw [habstract] at hconcrete
          cases hconcrete
        · exact hbelow hempty
      · exact h hnone
    rw [discriminated, if_neg hnot]

end Hierarchy

open Hierarchy (addDiscriminators Classifies lost replaced)

/-- Discriminators enumerate the hierarchy. On every model with a checked hierarchy, distinct
entity names and distinct names of own fields, adding discriminators succeeds. Every root
then has as its first field the discriminator, whose options are the names of the root and
of all entities below it, in model order and each with a capital letter; entities with
parents have no field of its name; all else is what it was. There is one warning for each
declared field that is gone, in model order, and a second run changes nothing and gives no
warnings. -/
theorem addDiscriminators_exact (hcheck : Hierarchy.check m = .ok ())
    (hnodup : m.entityNames.Nodup) (hfields : m.DistinctFields) :
    ∃ m' warnings, Ends addDiscriminators m warnings m' ∧ { m' with entities := m.entities } = m ∧
      List.Forall₂ (fun e e' => ∃ below, m.Below e.name below ∧ Classifies below e e')
        m.entities m'.entities ∧
      warnings = (m.entities.zip m'.entities).flatMap
        (fun (e, e') => (lost e e').map fun _ => replaced e.name) ∧
      Ends addDiscriminators m' [] m' := by
  refine ⟨Hierarchy.discriminatedModel m, _, Hierarchy.addDiscriminators_run hnodup hfields, rfl,
    ?_, ?_, Hierarchy.addDiscriminators_again hnodup hfields⟩
  · refine List.forall₂_map_right_iff.mpr (List.forall₂_same.mpr fun e he => ?_)
    exact ⟨m.descendants e.name,
      (Model.acyclic_of_check hcheck).descendants_below (List.mem_map_of_mem he),
      Hierarchy.discriminated_classifies m (Model.entity?_of_mem hnodup he)⟩
  · rw [Hierarchy.discriminatedModel, ← List.map_prod_left_eq_zip, List.flatMap_map]
    exact List.flatMap_congr fun e he => Hierarchy.warned_eq m (hfields e he)

/-- A library of books, which come as novels and as atlases; an atlas has a type of its own. -/
def books : Model :=
  { Model.empty with entities := [
      { Entity.named "atlas" with
        parents := ["Book"], fields := [Field.named "scale" .int, Field.named "type" .text] },
      { Entity.named "Book" with fields := [Field.named "id" .int, Field.named "title" .text] },
      { Entity.named "Novel" with parents := ["Book"] },
      { Entity.named "Saga" with parents := ["Novel"], implements := ["Listed"] },
      { Entity.named "Listed" with isAbstract := true, fields := [Field.named "type" .text] }] }

/-- The atlas loses its type, for which there is a warning; the saga is below the book by way of
the novel, and the type of the interface stays. -/
theorem books_discriminated : Hierarchy.check books = .ok () ∧ books.entityNames.Nodup ∧
    books.DistinctFields ∧ ∃ m', Ends addDiscriminators books [replaced "atlas"] m' ∧
      m'.entities.map (fun e => (e.name, e.fields.map (·.name))) =
        [("atlas", ["scale"]), ("Book", ["type", "id", "title"]), ("Novel", []), ("Saga", []),
          ("Listed", ["type"])] ∧
      (∃ e ∈ m'.entities, ∃ f ∈ e.fields, f.type = .enum ["Book", "Atlas", "Novel", "Saga"]) ∧
      Ends addDiscriminators m' [] m' := by
  have hcheck : Hierarchy.check books = .ok () := by decide +kernel
  have hnodup : books.entityNames.Nodup := by decide
  have hfields : books.DistinctFields := by decide
  obtain ⟨m', warnings, hends, -, -, -, hagain⟩ := addDiscriminators_exact hcheck hnodup hfields
  have hrun : (addDiscriminators.run books).1.toOption = some [replaced "atlas"] ∧
      (addDiscriminators.run books).2.entities.map (fun e => (e.name, e.fields.map (·.name))) =
        [("atlas", ["scale"]), ("Book", ["type", "id", "title"]), ("Novel", []), ("Saga", []),
          ("Listed", ["type"])] ∧
      ∃ e ∈ (addDiscriminators.run books).2.entities, ∃ f ∈ e.fields,
        f.type = .enum ["Book", "Atlas", "Novel", "Saga"] := by
    decide +kernel
  rw [hends] at hrun
  obtain ⟨hwarnings, hnames, htype⟩ := hrun
  cases hwarnings
  exact ⟨hcheck, hnodup, hfields, m', hends, hnames, htype, hagain⟩

end EntitySchema
