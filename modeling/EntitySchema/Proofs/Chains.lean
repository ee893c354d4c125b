import EntitySchema.Proofs.ApartEntities
import EntitySchema.Proofs.SearchOrder

/-! An entity and those that it extends, as one chain that starts at the entity. All of them
were found by one depth-first search; a field is seen where the chain first has its name,
and the interfaces count only when the chain does not have it. -/

namespace EntitySchema

open Relation (ReflTransGen)
open Closure (reach)

namespace Model

variable {m m' : Model} {name field : String} {e : Entity}

/-! ### The search -/

theorem chain_names (hname : name ∈ m.entityNames) : (m.chain name).map (·.name) =
    reach m.entityNames (m.linksOf (·.parents)) .depthFirst [] [name] := by
  obtain ⟨e, he⟩ := mem_entityNames.mp hname
  have hnode : m.entityNames.contains name = true := by simpa using hname
  rw [reach, dif_neg (by simp), dif_pos hnode, chain, he, List.map_append, ancestors,
    entitiesFrom_names]
  simp [entity?_name he, Closure.Strategy.enqueue]

theorem chain_eq (hname : name ∈ m.entityNames) : m.chain name =
    (reach m.entityNames (m.linksOf (·.parents)) .depthFirst [] [name]).filterMap m.entity? := by
  rw [← chain_names hname, List.filterMap_map]
  have hfound : (m.chain name).filterMap (m.entity? ∘ (·.name)) = (m.chain name).filterMap some :=
    List.filterMap_congr fun e he => entity?_of_mem_chain he
  rw [hfound, List.filterMap_some]

/-- Every entity of the chain but the first one is a parent of one before it. -/
theorem extends_before {before after : List Entity} (h : m.chain name = before ++ e :: after) :
    e.name = name ∨ ∃ c ∈ before, m.Extends c.name e.name := by
  have hname : name ∈ m.entityNames := by
    obtain ⟨he, hpath⟩ := mem_chain.mp (h ▸ by simp : e ∈ m.chain name)
    rcases ReflTransGen.cases_head hpath with rfl | ⟨_, hstep, -⟩
    · exact mem_entityNames.mpr ⟨e, he⟩
    · exact mem_entityNames_of_link hstep
  have hnames := congrArg (List.map (·.name)) h
  rw [chain_names hname, List.map_append, List.map_cons] at hnames
  obtain ⟨w, hw, hpath⟩ := Closure.path_of_found hnames
  obtain rfl := List.mem_singleton.mp hw
  rcases ReflTransGen.cases_tail hpath with heq | ⟨c, -, hc, hstep⟩
  · exact .inl heq
  · obtain ⟨x, hx, rfl⟩ := List.mem_map.mp hc
    exact .inr ⟨x, hx, hstep⟩

/-- Entities that keep their names and parents stand where they stood. -/
theorem chain_map {g : Entity → Entity} (hentities : m'.entities = m.entities.map g)
    (hg : ∀ e, (g e).name = e.name ∧ (g e).parents = e.parents) (hname : name ∈ m.entityNames) :
    m'.chain name = (m.chain name).map g := by
  have htest : ∀ a, (fun e : Entity => decide (e.name = a)) ∘ g = fun e => decide (e.name = a) := by
    intro a
    funext e
    simp [(hg e).1]
  have hfound : ∀ a, m'.entity? a = (m.entity? a).map g := by
    intro a
    unfold entity?
    rw [hentities, List.find?_map, htest]
  have hlinks : m'.linksOf (·.parents) = m.linksOf (·.parents) := by
    funext a
    unfold linksOf
    rw [hfound]
    cases m.entity? a with
    | none => rfl
    | some e => exact (hg e).2
  have hnames : m'.entityNames = m.entityNames := by
    unfold entityNames
    rw [hentities, List.map_map]
    exact List.map_congr_left fun e _ => (hg e).1
  rw [chain_eq (hnames ▸ hname), chain_eq hname, hnames, hlinks, List.map_filterMap]
  exact List.filterMap_congr fun a _ => hfound a

/-- An entity without parents is alone. -/
theorem chain_root (he : m.entity? name = some e) (hroot : e.parents = []) :
    m.chain name = [e] := by
  have hlinks : m.linksOf (·.parents) name = [] := by
    unfold linksOf
    rw [he]
    exact hroot
  unfold chain ancestors entitiesFrom
  rw [he, hlinks, reach]
  rfl

/-! ### Fields and keys -/

theorem find?_placeField (f : Field) : ∀ fields : List Field,
    (placeField f fields).find? (·.name = field) =
      if f.name = field then some f else fields.find? (·.name = field)
  | [] => by
    simp [placeField, List.find?_cons]
    split <;> simp_all
  | g :: rest => by
    unfold placeField
    by_cases hg : g.name = f.name
    · by_cases hf : f.name = field <;> simp [hg, hf]
    · rw [if_neg hg, List.find?_cons, find?_placeField f rest, List.find?_cons]
      by_cases hf : f.name = field
      · have hne : g.name ≠ field := fun heq => hg (heq.trans hf.symm)
        simp [hf, hne]
      · simp [hf]

/-- The field that is placed last is found. -/
theorem find?_foldl_placeField : ∀ fs acc : List Field,
    (fs.foldl (fun fields f => placeField f fields) acc).find? (·.name = field) =
      (fs.reverse.find? (·.name = field)).or (acc.find? (·.name = field))
  | [], acc => rfl
  | f :: rest, acc => by
    rw [List.foldl_cons, find?_foldl_placeField rest, find?_placeField, List.reverse_cons,
      List.find?_append, Option.or_assoc]
    by_cases hf : f.name = field <;> simp [hf]

/-- The field that is seen is found in the chain, from the entity on, or else in the interfaces,
from the last one on. -/
theorem visibleField?_eq (m : Model) (name field : String) : m.visibleField? name field =
    ((m.chain name).flatMap (·.fields.reverse) ++
      (m.interfaces name).reverse.flatMap (·.fields.reverse)).find? (·.name = field) := by
  have hreverse : ((m.lineage name).flatMap (·.fields)).reverse =
      (m.chain name).flatMap (·.fields.reverse) ++
        (m.interfaces name).reverse.flatMap (·.fields.reverse) := by
    rw [lineage_eq, List.reverse_flatMap, List.reverse_append, List.reverse_reverse,
      List.flatMap_append]
    rfl
  unfold visibleField? allFields
  rw [find?_foldl_placeField, hreverse]
  simp

/-- It belongs to the first entity of the chain that has one of its name, if there is one. -/
theorem visibleField?_first (m : Model) (name field : String) : m.visibleField? name field =
    ((m.chain name).findSome? fun e => e.fields.reverse.find? (·.name = field)).or
      (((m.interfaces name).reverse.flatMap (·.fields.reverse)).find? (·.name = field)) := by
  rw [visibleField?_eq, List.find?_append, List.find?_flatMap]

/-- No other visible field has the name of a visible field. -/
theorem visibleField?_of_mem {f : Field} (hf : f ∈ m.allFields name) :
    m.visibleField? name f.name = some f := by
  obtain ⟨g, hg⟩ := sees_iff_visibleField?.mp (⟨f, hf, rfl⟩ : m.Sees name f.name)
  have hname : g.name = f.name := by simpa using List.find?_some hg
  rw [hg, List.inj_on_of_nodup_map (allFields_nodup m name) (List.mem_of_find?_eq_some hg) hf hname]

end Model

end EntitySchema
