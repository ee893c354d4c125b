import EntitySchema.Proofs.DistinctFields
import EntitySchema.Proofs.Lineage

/-! What the questions about a hierarchy answer, in any model: also where names lead to no
entity, or parents and interfaces run in circles. The entities above one are those that a path
of links leads to, each once and without the one that is asked about; the visible names are
those of the entity and of all that are above it, and what is its own comes first. -/

namespace EntitySchema

open Relation (ReflTransGen TransGen)

namespace Model

variable {m : Model} {name field : String} {e : Entity}

/-! ### Above -/

/-- No name is found twice. -/
theorem entitiesFrom_nodup {links : Entity → List String} {strategy : Closure.Strategy}
    {waiting : List String} :
    ((m.entitiesFrom links strategy name waiting).map (·.name)).Nodup := by
  rw [entitiesFrom_names]
  exact Closure.reach_nodup

/-- The entities that are found by their names are those of the model. -/
theorem entity?_iff_mem (hnodup : m.entityNames.Nodup) :
    m.entity? e.name = some e ↔ e ∈ m.entities := ⟨entity?_mem, entity?_of_mem hnodup⟩

/-- An entity with links is the one that is asked about, or one of its ancestors. -/
theorem mem_ancestors_of_path {c b : String} {links : Entity → List String}
    (hpath : ReflTransGen m.Extends name c) (hlink : b ∈ m.linksOf links c) :
    c ∈ name :: (m.ancestors name).map (·.name) := by
  obtain ⟨x, hx, -⟩ := mem_linksOf.mp hlink
  obtain rfl := entity?_name hx
  by_cases hname : x.name = name
  · exact hname ▸ List.mem_cons_self
  · have habove := (Relation.reflTransGen_iff_eq_or_transGen.mp hpath).resolve_left hname
    have hmem : x ∈ m.ancestors name := mem_ancestors.mpr ⟨hx, hname, habove⟩
    exact List.mem_cons_of_mem _ (List.mem_map_of_mem hmem)

theorem path_of_mem_ancestors {c : String}
    (hc : c ∈ name :: (m.ancestors name).map (·.name)) : ReflTransGen m.Extends name c := by
  rcases List.mem_cons.mp hc with rfl | hc
  · exact .refl
  · obtain ⟨a, ha, rfl⟩ := List.mem_map.mp hc
    exact (mem_ancestors.mp ha).2.2.to_reflTransGen

/-- Paths of interfaces start at the entity or at one of its ancestors. -/
theorem mem_interfaces_iff : e ∈ m.interfaces name ↔
    m.entity? e.name = some e ∧ e.name ≠ name ∧
      ∃ c ∈ name :: (m.ancestors name).map (·.name), TransGen m.Implements c e.name := by
  rw [mem_interfaces]
  refine and_congr_right fun _ => and_congr_right fun _ => ⟨?_, ?_⟩
  · rintro ⟨c, hc, hpath⟩
    obtain ⟨_, hfirst, -⟩ := TransGen.head'_iff.mp hpath
    exact ⟨c, mem_ancestors_of_path hc hfirst, hpath⟩
  · rintro ⟨c, hc, hpath⟩
    exact ⟨c, path_of_mem_ancestors hc, hpath⟩

/-! ### Visible fields -/

theorem mem_lineage_iff : e ∈ m.lineage name ↔
    m.entity? name = some e ∨ e ∈ m.ancestors name ∨ e ∈ m.interfaces name := by
  unfold lineage
  rw [List.mem_append, List.mem_append, List.mem_reverse, Option.mem_toList, or_comm,
    or_comm (a := e ∈ m.interfaces name)]

/-- The own fields of an entity are what is seen under their names. -/
theorem own_mem_allFields {f : Field} (he : m.entity? name = some e)
    (hdistinct : e.DistinctFields) (hf : f ∈ e.fields) : f ∈ m.allFields name := by
  have hself : e ∈ m.lineage name := mem_lineage_iff.mpr (.inl he)
  obtain ⟨g, hg, hname⟩ := sees_iff.mpr ⟨e, hself, f, hf, rfl⟩
  have hsplit : m.lineage name = (m.interfaces name ++ (m.ancestors name).reverse) ++ [e] := by
    unfold lineage
    rw [he, Option.toList_some]
  obtain ⟨x, hx, hgx⟩ := allFields_near hsplit hg
    ⟨e, List.mem_singleton_self e, f, hf, hname.symm⟩
  obtain rfl := List.mem_singleton.mp hx
  have hsame : g = f := List.inj_on_of_nodup_map hdistinct hgx hf hname
  exact hsame ▸ hg

end Model

/-- In every model whose entities have different names, whatever its links lead to: the
ancestors of a name are the other entities that one or more parents lead to, each once; its
interfaces are the other entities that one or more interfaces lead to, from the name or from an
ancestor, each once; no two fields with the same name are visible on it, and the visible names
are those of own fields of the entity, its ancestors and its interfaces. Under the names of its
own fields, if these are distinct, the entity sees its own fields. -/
theorem hierarchy_queries_exact {m : Model} (hnodup : m.entityNames.Nodup) (name : String) :
    ((m.ancestors name).map (·.name)).Nodup ∧
    (∀ e, e ∈ m.ancestors name ↔
      e ∈ m.entities ∧ e.name ≠ name ∧ TransGen m.Extends name e.name) ∧
    ((m.interfaces name).map (·.name)).Nodup ∧
    (∀ e, e ∈ m.interfaces name ↔ e ∈ m.entities ∧ e.name ≠ name ∧
      ∃ c ∈ name :: (m.ancestors name).map (·.name), TransGen m.Implements c e.name) ∧
    ((m.allFields name).map (·.name)).Nodup ∧
    (∀ field, field ∈ (m.allFields name).map (·.name) ↔ ∃ e ∈ m.entities,
      (e.name = name ∨ e ∈ m.ancestors name ∨ e ∈ m.interfaces name) ∧
        field ∈ e.fields.map (·.name)) ∧
    (∀ e ∈ m.entities, e.name = name → (e.fields.map (·.name)).Nodup →
      ∀ f ∈ e.fields, f ∈ m.allFields name) := by
  refine ⟨Model.entitiesFrom_nodup, fun e => ?_, Model.entitiesFrom_nodup, fun e => ?_,
    Model.allFields_nodup m name, fun field => ?_, ?_⟩
  · rw [Model.mem_ancestors, Model.entity?_iff_mem hnodup]
  · rw [Model.mem_interfaces_iff, Model.entity?_iff_mem hnodup]
  · have hself : ∀ {e}, m.entity? name = some e ↔ e ∈ m.entities ∧ e.name = name := by
      intro e
      constructor
      · exact fun he => ⟨Model.entity?_mem he, Model.entity?_name he⟩
      · rintro ⟨he, rfl⟩
        exact Model.entity?_of_mem hnodup he
    have hmem : ∀ {e}, e ∈ m.lineage name ↔ e ∈ m.entities ∧
        (e.name = name ∨ e ∈ m.ancestors name ∨ e ∈ m.interfaces name) := by
      intro e
      constructor
      · intro he
        have hfound := (Model.mem_lineage.mp he).1
        exact ⟨Model.entity?_mem hfound, (Model.mem_lineage_iff.mp he).imp_left
          fun h => Model.entity?_name h⟩
      · rintro ⟨he, habove⟩
        exact Model.mem_lineage_iff.mpr (habove.imp_left fun h => hself.mpr ⟨he, h⟩)
    have hsees : m.Sees name field ↔
        ∃ e ∈ m.lineage name, ∃ f ∈ e.fields, f.name = field := Model.sees_iff
    simp only [Model.Sees, hmem, and_assoc] at hsees
    simpa only [List.mem_map] using hsees
  · rintro e he rfl hdistinct f hf
    exact Model.own_mem_allFields (Model.entity?_of_mem hnodup he) hdistinct hf

/-- Entities that extend each other and themselves, and interfaces in a circle that leads back
to an entity; one parent and one interface are not there. -/
def knots : Model :=
  { Model.empty with entities := [
      { Entity.named "Left" with
        parents := ["Left", "Lost", "Right"], implements := ["Outer"]
        fields := [Field.named "label" (.string 10)] },
      { Entity.named "Right" with
        parents := ["Left", "Right"], implements := ["Lost"]
        fields := [Field.named "label" (.string 20), Field.named "size" .int] },
      { Entity.named "Outer" with isAbstract := true, implements := ["Inner", "Left"] },
      { Entity.named "Inner" with
        isAbstract := true, implements := ["Outer", "Inner"]
        fields := [Field.named "code" .int] }] }

theorem knots_queried : knots.entityNames.Nodup ∧
    (knots.ancestors "Right").map (·.name) = ["Left"] ∧
    (knots.interfaces "Right").map (·.name) = ["Outer", "Inner", "Left"] ∧
    TransGen knots.Extends "Right" "Left" ∧
    (∃ c ∈ "Right" :: (knots.ancestors "Right").map (·.name),
      TransGen knots.Implements c "Inner") ∧
    Field.named "label" (.string 20) ∈ knots.allFields "Right" := by
  have hnodup : knots.entityNames.Nodup := by decide +kernel
  have hancestor : knots.ancestors "Right" = [knots.entities[0]] := by decide +kernel
  have hinterface : knots.entities[3] ∈ knots.interfaces "Right" := by decide +kernel
  obtain ⟨-, hancestors, -, hinterfaces, -, -, hown⟩ := hierarchy_queries_exact hnodup "Right"
  refine ⟨hnodup, by decide +kernel, by decide +kernel, ?_, ?_, ?_⟩
  · exact ((hancestors knots.entities[0]).mp (hancestor ▸ List.mem_singleton_self _)).2.2
  · exact ((hinterfaces knots.entities[3]).mp hinterface).2.2
  · exact hown knots.entities[1] (by decide) rfl (by decide) _ (by decide +kernel)

end EntitySchema
