import EntitySchema.Proofs.Chains
import EntitySchema.Proofs.KeyPropagation
import EntitySchema.Proofs.Tables

/-! Identity roots stand in every chain right behind the root that they were made for. What
an identity root has is the primary key of its root, so the first key of a lineage is over
the fields that it was over; and every other entity of the chain that could see through it
has fields of its own for that key, or is the root itself, which sees what was copied. -/

namespace EntitySchema

open Relation (ReflTransGen TransGen)
open Closure (reach)
open Model (chain_eq)

variable {m s s' : Model} {name field : String} {e root identity : Entity} {roots : List String}

/-! ### Nodes that stand behind others -/

/-- When some nodes lead to a new node before all others, the new ones are found behind them. -/
theorem Closure.reach_behind {nodes added seen seen' waiting : List String}
    {links links' : String → List String} {behind : String → Option String}
    (hlinks : ∀ a ∈ nodes, links' a = (behind a).toList ++ links a ∧ links a ⊆ nodes)
    (hbehind : ∀ a b, behind a = some b → b ∈ added ∧ b ∉ nodes ∧ links' b = [])
    (hinjective : ∀ a c b, behind a = some b → behind c = some b → a = c)
    (hwaiting : waiting ⊆ nodes) (hseen : ∀ a ∈ nodes, a ∈ seen' ↔ a ∈ seen)
    (hfresh : ∀ a b, behind a = some b → b ∈ seen' → a ∈ seen) :
    reach (nodes ++ added) links' .depthFirst seen' waiting =
      (reach nodes links .depthFirst seen waiting).flatMap fun a => a :: (behind a).toList := by
  fun_induction reach nodes links .depthFirst seen waiting generalizing seen' with
  | case1 =>
    rw [reach]
    rfl
  | case2 seen name waiting hold ih =>
    obtain ⟨hname, hwaiting⟩ := List.cons_subset.mp hwaiting
    have hold' : seen'.contains name = true := by
      rw [List.contains_iff_mem] at hold ⊢
      exact (hseen name hname).mpr hold
    rw [reach, dif_pos hold', ih hwaiting hseen hfresh]
  | case3 seen name waiting hnew hnode ih =>
    obtain ⟨hname, hwaiting⟩ := List.cons_subset.mp hwaiting
    have hnew' : ¬seen'.contains name = true := by
      rw [List.contains_iff_mem] at hnew ⊢
      exact fun h => hnew ((hseen name hname).mp h)
    have hnode' : (nodes ++ added).contains name = true := by simp [hname]
    obtain ⟨hlinks', hsubset⟩ := hlinks name hname
    have hrest : (links name ++ waiting) ⊆ nodes := List.append_subset.mpr ⟨hsubset, hwaiting⟩
    rw [reach, dif_neg hnew', dif_pos hnode', hlinks', List.flatMap_cons]
    cases hb : behind name with
    | none =>
      rw [Option.toList_none, List.nil_append]
      refine congrArg (name :: ·) (ih hrest (fun a ha => by simp [hseen a ha]) ?_)
      intro a b hab hmem
      rcases List.mem_cons.mp hmem with rfl | hmem
      · exact absurd hname (hbehind a b hab).2.1
      · exact List.mem_cons_of_mem _ (hfresh a b hab hmem)
    | some c =>
      obtain ⟨hadded, hc, hend⟩ := hbehind name c hb
      have hne : c ≠ name := fun heq => hc (heq ▸ hname)
      have hcnew : ¬(name :: seen').contains c = true := by
        rw [List.contains_iff_mem, List.mem_cons, not_or]
        refine ⟨hne, fun hmem => hnew ?_⟩
        rw [List.contains_iff_mem]
        exact hfresh name c hb hmem
      have hcnode : (nodes ++ added).contains c = true := by simp [hadded]
      show name :: reach _ _ _ _ (c :: (links name ++ waiting)) = name :: c :: _
      rw [reach, dif_neg hcnew, dif_pos hcnode, hend]
      refine congrArg (name :: c :: ·) (ih hrest (fun a ha => ?_) fun a b hab hmem => ?_)
      · have hac : a ≠ c := fun heq => hc (heq ▸ ha)
        simp [hac, hseen a ha]
      · rcases List.mem_cons.mp hmem with rfl | hmem
        · exact hinjective name a b hb hab ▸ List.mem_cons_self
        · rcases List.mem_cons.mp hmem with rfl | hmem
          · exact absurd hname (hbehind a b hab).2.1
          · exact List.mem_cons_of_mem _ (hfresh a b hab hmem)
  | case4 seen name waiting hnew hnode ih =>
    exact absurd (by simpa using (List.cons_subset.mp hwaiting).1) hnode

/-! ### Models with identity roots -/

namespace Hierarchy

/-- The entity under its identity root, if it is one of the roots. -/
def placed (roots : List String) (e : Entity) : Entity :=
  if e.name ∈ roots then { e with parents := [identityName e.name] } else e

/-- The name of the identity root above an entity. -/
def above? (roots : List String) (name : String) : Option String :=
  if name ∈ roots then some (identityName name) else none

/-- The identity root above an entity, if it is one of these roots. -/
def identitiesAt (roots : List String) (s : Model) (name : String) : List Entity :=
  ((above? roots name).bind s.entity?).toList

/-- The entity holds the primary key of the root. -/
structure Identity (m : Model) (root : String) (identity : Entity) : Prop where
  name : identity.name = identityName root
  isAbstract : identity.isAbstract = true
  parents : identity.parents = []
  implements : identity.implements = []
  keys : identity.keys.map (·.fields) = ((m.primaryKey? root).map (·.fields)).toList
  fields : ∃ d, d.name = discriminatorName ∧ identity.fields = d :: m.primaryKeyFields root

/-- The second model is the first one with identity roots above these roots. -/
structure Identified (m : Model) (roots : List String) (s : Model) : Prop where
  frame : { s with entities := m.entities } = m
  nodup : s.entityNames.Nodup
  isRoot : ∀ root ∈ roots, m.isRoot root = true
  entities : ∃ identities, s.entities = m.entities.map (placed roots) ++ identities ∧
    List.Forall₂ (Identity m) roots identities

theorem placed_of_not_mem (h : e.name ∉ roots) : placed roots e = e := if_neg h

@[simp] theorem placed_name (roots : List String) (e : Entity) :
    (placed roots e).name = e.name := by
  unfold placed
  split <;> rfl

@[simp] theorem placed_fields (roots : List String) (e : Entity) :
    (placed roots e).fields = e.fields := by
  unfold placed
  split <;> rfl

@[simp] theorem placed_keys (roots : List String) (e : Entity) :
    (placed roots e).keys = e.keys := by
  unfold placed
  split <;> rfl

@[simp] theorem placed_implements (roots : List String) (e : Entity) :
    (placed roots e).implements = e.implements := by
  unfold placed
  split <;> rfl

@[simp] theorem placed_isAbstract (roots : List String) (e : Entity) :
    (placed roots e).isAbstract = e.isAbstract := by
  unfold placed
  split <;> rfl

theorem identities_names {identities : List Entity}
    (h : List.Forall₂ (Identity m) roots identities) :
    identities.map (·.name) = roots.map identityName := by
  rw [← List.forall₂_eq_eq_eq, List.forall₂_map_left_iff, List.forall₂_map_right_iff]
  exact h.flip.imp fun _ _ h => h.name

section Identified

variable (h : Identified m roots s)

include h

theorem Identified.entityNames : s.entityNames = m.entityNames ++ roots.map identityName := by
  obtain ⟨identities, hs, hidentities⟩ := h.entities
  unfold Model.entityNames
  rw [hs, List.map_append, identities_names hidentities, List.map_map]
  exact congrArg (· ++ _) (List.map_congr_left fun e _ => placed_name roots e)

theorem Identified.entity? (he : m.entity? name = some e) :
    s.entity? name = some (placed roots e) := by
  obtain ⟨identities, hs, -⟩ := h.entities
  have htest : (fun x : Entity => decide (x.name = name)) ∘ placed roots =
      fun x => decide (x.name = name) := by
    funext x
    simp
  unfold Model.entity? at he ⊢
  rw [hs, List.find?_append, List.find?_map, htest, he]
  rfl

theorem Identified.identity? (hroot : name ∈ roots) :
    ∃ identity, s.entity? (identityName name) = some identity ∧ Identity m name identity := by
  obtain ⟨identities, hs, hidentities⟩ := h.entities
  obtain ⟨identity, hmem, hidentity⟩ := exists_of_forall₂_left hidentities hroot
  refine ⟨identity, ?_, hidentity⟩
  rw [← hidentity.name]
  exact Model.entity?_of_mem h.nodup (hs ▸ List.mem_append_right _ hmem)

/-- The identity root above an entity. -/
theorem Identified.above?_eq_some {a b : String} (hab : above? roots a = some b) :
    a ∈ roots ∧ b = identityName a ∧ b ∈ roots.map identityName ∧ b ∉ m.entityNames := by
  unfold above? at hab
  split at hab
  · next hroot =>
    cases hab
    have hmem : identityName a ∈ roots.map identityName := List.mem_map_of_mem hroot
    have hnodup := h.nodup
    rw [h.entityNames] at hnodup
    exact ⟨hroot, rfl, hmem, fun hold => (List.nodup_append.mp hnodup).2.2 _ hold _ hmem rfl⟩
  · cases hab

theorem Identified.above?_injective {a b c : String} (hab : above? roots a = some b)
    (hcb : above? roots c = some b) : a = c := by
  obtain ⟨ha, rfl, -⟩ := h.above?_eq_some hab
  obtain ⟨hc, heq, -⟩ := h.above?_eq_some hcb
  have hnodup := h.nodup
  rw [h.entityNames] at hnodup
  exact List.inj_on_of_nodup_map (List.nodup_append.mp hnodup).2.1 ha hc heq

/-- Roots have no parents, so what their identity roots take the place of is nothing. -/
theorem Identified.parents (hname : name ∈ m.entityNames) :
    s.linksOf (·.parents) name = (above? roots name).toList ++ m.linksOf (·.parents) name := by
  obtain ⟨e, he⟩ := Model.mem_entityNames.mp hname
  have hparents : (placed roots e).parents = (above? roots name).toList ++ e.parents := by
    obtain rfl := Model.entity?_name he
    unfold placed above?
    split
    · next hroot =>
      obtain ⟨root, hfound, -, hnone, -⟩ := Model.isRoot_iff.mp (h.isRoot _ hroot)
      rw [he] at hfound
      cases hfound
      rw [hnone]
      rfl
    · rfl
  unfold Model.linksOf
  rw [h.entity? he, he]
  exact hparents

theorem Identified.no_links {a b : String} (hab : above? roots a = some b) :
    s.linksOf (·.parents) b = [] ∧ s.linksOf (·.implements) b = [] := by
  obtain ⟨hroot, rfl, -⟩ := h.above?_eq_some hab
  obtain ⟨identity, hfound, hidentity⟩ := h.identity? hroot
  unfold Model.linksOf
  rw [hfound]
  exact ⟨hidentity.parents, hidentity.implements⟩

theorem Identified.implements (hname : name ∈ m.entityNames) :
    s.linksOf (·.implements) name = m.linksOf (·.implements) name := by
  obtain ⟨e, he⟩ := Model.mem_entityNames.mp hname
  unfold Model.linksOf
  rw [h.entity? he, he]
  exact placed_implements roots e

variable (hm : m.Checked)

include hm

/-- The identity roots stand in the chain behind their roots. -/
theorem Identified.chain (hname : name ∈ m.entityNames) : s.chain name =
    (m.chain name).flatMap fun e => placed roots e :: identitiesAt roots s e.name := by
  have hreach : reach s.entityNames (s.linksOf (·.parents)) .depthFirst [] [name] =
      (reach m.entityNames (m.linksOf (·.parents)) .depthFirst [] [name]).flatMap
        fun a => a :: (above? roots a).toList := by
    rw [h.entityNames]
    refine Closure.reach_behind (fun a ha => ⟨h.parents ha, ?_⟩) (fun a b hab => ?_)
      (fun a c b => h.above?_injective) (by simpa using hname) (fun _ _ => Iff.rfl)
      fun _ _ _ hmem => absurd hmem List.not_mem_nil
    · exact hm.closed.links fun _ => List.subset_append_left _ _
    · obtain ⟨-, -, hadded, hnew⟩ := h.above?_eq_some hab
      exact ⟨hadded, hnew, (h.no_links hab).1⟩
  have hname' : name ∈ s.entityNames := h.entityNames ▸ List.mem_append_left _ hname
  rw [Model.chain_eq hname', hreach, ← Model.chain_names hname, List.flatMap_map,
    List.filterMap_flatMap]
  refine List.flatMap_congr fun e he => ?_
  rw [List.filterMap_cons_some (h.entity? (Model.entity?_of_mem_chain he)), identitiesAt]
  cases above? roots e.name with
  | none => rfl
  | some b => cases hb : s.entity? b <;> simp [hb]

/-- Interfaces are what they were, since they are no roots and identity roots have none. -/
theorem Identified.interfaces (hname : name ∈ m.entityNames) :
    s.interfaces name = m.interfaces name := by
  have hwaiting : (s.chain name).flatMap (·.implements) =
      (m.chain name).flatMap (·.implements) := by
    rw [h.chain hm hname, List.flatMap_assoc]
    refine List.flatMap_congr fun e _ => ?_
    rw [List.flatMap_cons, placed_implements]
    refine (congrArg (e.implements ++ ·) (List.flatMap_eq_nil_iff.mpr fun i hi => ?_)).trans
      (List.append_nil _)
    obtain ⟨b, hb, hi⟩ := Option.bind_eq_some_iff.mp (Option.mem_toList.mp hi)
    have hlinks := (h.no_links hb).2
    unfold Model.linksOf at hlinks
    rwa [hi] at hlinks
  have hsubset : (m.chain name).flatMap (·.implements) ⊆ m.entityNames := fun b hb => by
    obtain ⟨e, he, hb⟩ := List.mem_flatMap.mp hb
    exact hm.closed e (Model.entity?_mem (Model.entity?_of_mem_chain he)) b
      (List.mem_append_right _ hb)
  have hreach : reach s.entityNames (s.linksOf (·.implements)) .breadthFirst [name]
        ((m.chain name).flatMap (·.implements)) =
      reach m.entityNames (m.linksOf (·.implements)) .breadthFirst [name]
        ((m.chain name).flatMap (·.implements)) := by
    rw [h.entityNames]
    exact Closure.reach_append (fun a ha => ⟨h.implements ha,
      hm.closed.links fun _ => List.subset_append_right _ _⟩) hsubset
  rw [Model.interfaces_eq, hwaiting, Model.interfaces_eq, Model.entitiesFrom, hreach]
  refine List.filterMap_congr fun a ha => ?_
  obtain ⟨e, he⟩ := Model.mem_entityNames.mp (Closure.mem_reach.mp ha).1
  have hinterface : e ∈ m.interfaces name := by
    rw [Model.interfaces_eq]
    exact List.mem_filterMap.mpr ⟨a, ha, he⟩
  obtain ⟨-, -, c, -, hpath⟩ := Model.mem_interfaces.mp hinterface
  obtain ⟨i, hi, habstract⟩ := hm.layered.interface_of_path hpath
  obtain rfl := Model.entity?_name he
  rw [he] at hi
  cases hi
  have hsame : placed roots e = e := by
    refine placed_of_not_mem fun hroot => ?_
    obtain ⟨root, hfound, hconcrete, -⟩ := Model.isRoot_iff.mp (h.isRoot _ hroot)
    rw [he] at hfound
    cases hfound
    rw [habstract] at hconcrete
    cases hconcrete
  rw [h.entity? he, he, hsame]

end Identified

/-! ### One identity root after the other -/

theorem Identified.nil (hnodup : m.entityNames.Nodup) : Identified m [] m where
  frame := rfl
  nodup := hnodup
  isRoot := by simp
  entities := by
    have hsame : m.entities.map (placed []) = m.entities :=
      (List.map_congr_left fun e _ => placed_of_not_mem List.not_mem_nil).trans (List.map_id _)
    exact ⟨[], by rw [hsame, List.append_nil], .nil⟩

/-- A root whose turn is still to come sees what it saw. -/
theorem Identified.lineage_root (h : Identified m roots s) (hm : m.Checked)
    (hroot : m.isRoot name = true) (hnew : name ∉ roots) : s.lineage name = m.lineage name := by
  obtain ⟨root, hfound, -, hparents, -⟩ := Model.isRoot_iff.mp hroot
  have hname := Model.entity?_name hfound
  have hsame : placed roots root = root := placed_of_not_mem (hname ▸ hnew)
  have hfound' : s.entity? name = some root := hsame ▸ h.entity? hfound
  rw [Model.lineage_eq, Model.lineage_eq, Model.chain_root hfound' hparents,
    Model.chain_root hfound hparents, h.interfaces hm (Model.mem_entityNames.mpr ⟨root, hfound⟩)]

/-- One step: the identity root comes last, and the root under it. -/
theorem addIdentity_entities (hnodup : s.entityNames.Nodup) (hfound : s.entity? name = some root)
    (hstep : addIdentity name s = .ok s') : ∃ identity, identityOf s root = .ok identity ∧
      (s.entityNames ++ [identity.name]).Nodup ∧
      s' = { s with entities := (s.entities ++ [identity]).map (placed [name]) } := by
  obtain ⟨identity, s₁, hidentity, hadd, rfl⟩ := addIdentity_steps hstep hfound
  have hadded := Model.Evolves.addEntity Entity.isChange_eq hadd
  have hnodup₁ := hadded.nodup Entity.isChange_eq hnodup
  refine ⟨identity, hidentity, hadded.entityNames Entity.isChange_eq ▸ hnodup₁, ?_⟩
  rw [Model.changeEntity_map hnodup₁, (Model.addEntity_ok hadd).2]
  have hplaced : (fun e : Entity => if e.name = name then
      { e with parents := [identityName name] } else e) = placed [name] := by
    funext e
    by_cases he : e.name = name
    · subst he
      simp [placed]
    · simp [placed, he]
  rw [hplaced]

theorem placed_placed (hnew : name ∉ roots) (e : Entity) :
    placed [name] (placed roots e) = placed (roots ++ [name]) e := by
  by_cases he : e.name = name
  · subst he
    simp [placed, hnew]
  · rw [placed_of_not_mem (by simpa using he)]
    simp [placed, he]

theorem Identified.step (h : Identified m roots s) (hm : m.Checked) (hroot : m.isRoot name = true)
    (hnew : name ∉ roots) (hstep : addIdentity name s = .ok s') :
    Identified m (roots ++ [name]) s' := by
  obtain ⟨root, hfound, -⟩ := Model.isRoot_iff.mp hroot
  have hname := Model.entity?_name hfound
  have hsame : placed roots root = root := placed_of_not_mem (hname ▸ hnew)
  obtain ⟨identity, hidentity, hnodup, rfl⟩ :=
    addIdentity_entities h.nodup (hsame ▸ h.entity? hfound) hstep
  have hlineage := h.lineage_root hm hroot hnew
  have hholds : Identity m name identity := by
    obtain rfl := identityOf_ok hidentity
    rw [hname, Model.primaryKey?_congr hlineage, Model.primaryKeyFields_congr hlineage]
    refine ⟨by rw [plainIdentity, ← hname]; rfl, rfl, rfl, rfl, ?_, _, rfl, rfl⟩
    cases m.primaryKey? name <;> rfl
  obtain ⟨identities, hs, hidentities⟩ := h.entities
  have hothers : ∀ i ∈ identities ++ [identity], placed [name] i = i := by
    intro i hi
    refine placed_of_not_mem fun hmem => ?_
    rw [h.entityNames, ← identities_names hidentities, List.append_assoc] at hnodup
    refine (List.nodup_append.mp hnodup).2.2 name (Model.mem_entityNames.mpr ⟨root, hfound⟩) i.name
      ?_ (List.mem_singleton.mp hmem).symm
    simpa using List.mem_map_of_mem hi
  refine ⟨h.frame, ?_, fun r hr => ?_, identities ++ [identity], ?_,
    List.rel_append hidentities (.cons hholds .nil)⟩
  · have hnames : ((s.entities ++ [identity]).map (placed [name])).map (·.name) =
        s.entityNames ++ [identity.name] := by
      rw [List.map_map, Model.entityNames, ← List.map_singleton, ← List.map_append]
      exact List.map_congr_left fun e _ => placed_name [name] e
    rw [Model.entityNames, hnames]
    exact hnodup
  · rcases List.mem_append.mp hr with hr | hr
    · exact h.isRoot r hr
    · exact List.mem_singleton.mp hr ▸ hroot
  · rw [hs, List.append_assoc, List.map_append, List.map_map,
      List.map_congr_left (g := id) hothers, List.map_id]
    exact congrArg (· ++ _) (List.map_congr_left fun e _ => placed_placed hnew e)

theorem addIdentityEach_identified (hm : m.Checked) : ∀ {todo roots : List String} {s : Model},
    Identified m roots s → (∀ name ∈ todo, m.isRoot name = true) → (roots ++ todo).Nodup →
    Ends (todo.forM fun name => Pass.step (addIdentity name)) s () s' →
    Identified m (roots ++ todo) s'
  | [], roots, s, h, _, _, hends => by
    cases hends
    rwa [List.append_nil]
  | name :: rest, roots, s, h, hroots, hnodup, hends => by
    obtain ⟨s₁, hstep, hends⟩ := Pass.step_bind hends
    obtain ⟨hroot, hroots⟩ := List.forall_mem_cons.mp hroots
    have hnew : name ∉ roots := fun hmem =>
      (List.nodup_append.mp hnodup).2.2 name hmem name List.mem_cons_self rfl
    rw [List.append_cons] at hnodup ⊢
    exact addIdentityEach_identified hm (h.step hm hroot hnew hstep) hroots hnodup hends

theorem addIdentities_identified (hm : m.Checked) (hnodup : m.entityNames.Nodup)
    (h : Ends addIdentities m () s) : Identified m (m.entityNames.filter m.isRoot) s :=
  addIdentityEach_identified hm (.nil hnodup) (fun _ hname => (List.mem_filter.mp hname).2)
    (hnodup.filter _) h.get_bind

/-! ### Keys -/

/-- What is tried next gives nothing new, when something before it gives something then. -/
theorem findSome?_or {α β : Type} {g h : α → Option β} : ∀ {xs : List α},
    (∀ before x after, xs = before ++ x :: after → (h x).isSome = true →
      ∃ c ∈ before, (g c).isSome = true) →
    xs.findSome? (fun x => (g x).or (h x)) = xs.findSome? g
  | [], _ => rfl
  | x :: rest, hbefore => by
    rw [List.findSome?_cons, List.findSome?_cons]
    cases hg : g x with
    | some b => rfl
    | none =>
      have hnone : h x = none := by
        by_contra hsome
        obtain ⟨c, hc, -⟩ := hbefore [] x rest rfl (Option.isSome_iff_ne_none.mpr hsome)
        cases hc
      rw [hnone]
      refine findSome?_or fun before y after hsplit hy => ?_
      obtain ⟨c, hc, hsome⟩ := hbefore (x :: before) y after (by rw [hsplit]; rfl) hy
      rcases List.mem_cons.mp hc with rfl | hc
      · rw [hg] at hsome
        cases hsome
      · exact ⟨c, hc, hsome⟩

theorem findSome?_congr {α β : Type} {g h : α → Option β} {xs : List α}
    (hsame : ∀ x ∈ xs, g x = h x) : xs.findSome? g = xs.findSome? h := by
  induction xs with
  | nil => rfl
  | cons x rest ih =>
    obtain ⟨hx, hrest⟩ := List.forall_mem_cons.mp hsame
    rw [List.findSome?_cons, List.findSome?_cons, hx, ih hrest]

/-- Who inherits from an entity by way of parents has its interfaces. -/
theorem interfaces_of_chain (hm : m.Checked) (he : e ∈ m.chain name) {i : Entity}
    (hi : i ∈ m.interfaces e.name) : i ∈ m.interfaces name := by
  obtain ⟨-, habove⟩ := Model.mem_chain.mp he
  obtain ⟨hfound, hne, c, hc, hpath⟩ := Model.mem_interfaces.mp hi
  refine Model.mem_interfaces.mpr ⟨hfound, fun heq => hne ?_, c, habove.trans hc, hpath⟩
  -- an interface extends nothing, so it has no chain but itself
  rw [heq] at hpath ⊢
  exact (hm.extends_interface hpath habove).symm

section Lookups

variable (h : Identified m roots s) (hm : m.Checked)

include h

/-- What stands in a chain behind an entity is its identity root, if it is one of the roots. -/
theorem Identified.identitiesAt_cases (name : String) : identitiesAt roots s name = [] ∨
    ∃ identity, identitiesAt roots s name = [identity] ∧ name ∈ roots ∧
      Identity m name identity := by
  by_cases hroot : name ∈ roots
  · obtain ⟨identity, hfound, hidentity⟩ := h.identity? hroot
    refine .inr ⟨identity, ?_, hroot, hidentity⟩
    rw [identitiesAt, above?, if_pos hroot, Option.bind_some, hfound]
    rfl
  · refine .inl ?_
    rw [identitiesAt, above?, if_neg hroot]
    rfl

/-- But for the discriminator, an identity root has fields that its root sees. -/
theorem Identified.copied {f : Field} (hfield : field ≠ discriminatorName)
    (hf : ((identitiesAt roots s name).flatMap (·.fields.reverse)).find? (·.name = field) =
      some f) : name ∈ roots ∧ f ∈ m.primaryKeyFields name ∧ f.name = field := by
  have hname : f.name = field := by simpa using List.find?_some hf
  rcases h.identitiesAt_cases name with hnone | ⟨identity, hone, hroot, hidentity⟩
  · simp [hnone] at hf
  · obtain ⟨d, hd, hfields⟩ := hidentity.fields
    have hmem := List.mem_of_find?_eq_some hf
    rw [hone, List.flatMap_singleton, List.mem_reverse, hfields] at hmem
    refine ⟨hroot, (List.mem_cons.mp hmem).resolve_left fun heq => hfield ?_, hname⟩
    rw [← hname, heq, hd]

include hm

/-- The key of the identity root is over the fields of the first key of the root, unless
interfaces have keys, and then those come first for all who inherit from the root. -/
theorem Identified.primaryKey? (hname : name ∈ m.entityNames) :
    (s.primaryKey? name).map (·.fields) = (m.primaryKey? name).map (·.fields) := by
  rw [Model.primaryKey?_eq, Model.primaryKey?_eq, Model.lineage_eq, Model.lineage_eq,
    h.interfaces hm hname, h.chain hm hname, List.reverse_flatMap, List.flatMap_append,
    List.flatMap_append, List.head?_append, List.head?_append]
  cases hinterfaces : ((m.interfaces name).flatMap (·.keys)).head? with
  | some key => rfl
  | none =>
    have hnone : ∀ i ∈ m.interfaces name, i.keys = [] :=
      List.flatMap_eq_nil_iff.mp (List.head?_eq_none_iff.mp hinterfaces)
    rw [Option.none_or, Option.none_or, List.flatMap_assoc, List.head?_flatMap, List.head?_flatMap,
      List.map_findSome?, List.map_findSome?]
    refine findSome?_congr fun e he => ?_
    have hchain := List.mem_reverse.mp he
    have he := Model.entity?_of_mem_chain hchain
    rcases h.identitiesAt_cases e.name with hbehind | ⟨identity, hbehind, hroot, hidentity⟩
    · simp [hbehind]
    · obtain ⟨root, hfound, -, hparents, -⟩ := Model.isRoot_iff.mp (h.isRoot _ hroot)
      rw [he] at hfound
      cases hfound
      have hfirst : m.primaryKey? e.name = e.keys.head? := by
        have hkeys : (m.interfaces e.name).flatMap (·.keys) = [] :=
          List.flatMap_eq_nil_iff.mpr fun i hi =>
            hnone i (interfaces_of_chain hm hchain hi)
        rw [Model.primaryKey?_eq, Model.lineage_eq, List.flatMap_append, hkeys,
          Model.chain_root he hparents]
        simp
      have hkey : identity.keys.head?.map (·.fields) = e.keys.head?.map (·.fields) := by
        rw [← List.head?_map, hidentity.keys, hfirst]
        cases e.keys.head? <;> rfl
      simp [hbehind, Option.map_or, hkey]

/-- The fields of the identity root are seen where the root sees them, by the root itself. Who
inherits from the root has fields of its own of these names on the way to it. -/
theorem Identified.visibleField? (hname : name ∈ m.entityNames)
    (howned : ∀ e ∈ m.entities, ∀ p ∈ e.parents, ∀ f ∈ m.primaryKeyFields p,
      e.hasField f.name = true) (hfield : field ≠ discriminatorName) :
    s.visibleField? name field = m.visibleField? name field := by
  have hsplit : ∀ e : Entity, ((placed roots e :: identitiesAt roots s e.name).flatMap
        (·.fields.reverse)).find? (·.name = field) =
      (e.fields.reverse.find? (·.name = field)).or
        (((identitiesAt roots s e.name).flatMap (·.fields.reverse)).find? (·.name = field)) := by
    intro e
    rw [List.flatMap_cons, List.find?_append, placed_fields]
  have hbefore := Model.visibleField?_first m name field
  rw [Model.visibleField?_eq, h.interfaces hm hname, h.chain hm hname, List.flatMap_assoc,
    List.find?_append, List.find?_flatMap, findSome?_congr fun e _ => hsplit e]
  by_cases hroot : name ∈ roots
  · obtain ⟨root, hfound, -, hparents, -⟩ := Model.isRoot_iff.mp (h.isRoot _ hroot)
    obtain rfl := Model.entity?_name hfound
    rw [hbefore, Model.chain_root hfound hparents, List.findSome?_singleton,
      List.findSome?_singleton]
    rw [Model.chain_root hfound hparents, List.findSome?_singleton] at hbefore
    cases hcopy : ((identitiesAt roots s root.name).flatMap (·.fields.reverse)).find?
        (·.name = field) with
    | none => rw [Option.or_none]
    | some f =>
      obtain ⟨-, hf, rfl⟩ := h.copied hfield hcopy
      have hseen := (Model.visibleField?_of_mem (Model.mem_primaryKeyFields hf).2).symm.trans hbefore
      cases hown : root.fields.reverse.find? (·.name = f.name) with
      | none =>
        rw [hown] at hseen
        simpa using hseen
      | some g => rfl
  · rw [findSome?_or, hbefore]
    intro before x after hchain hcopy
    obtain ⟨f, hcopy⟩ := Option.isSome_iff_exists.mp hcopy
    obtain ⟨hx, hf, rfl⟩ := h.copied hfield hcopy
    rcases Model.extends_before hchain with rfl | ⟨c, hc, hlink⟩
    · exact absurd hx hroot
    · have hfound := Model.entity?_of_mem_chain (hchain ▸ List.mem_append_left _ hc : c ∈ m.chain name)
      obtain ⟨c', hfound', hparent⟩ := Model.mem_linksOf.mp hlink
      rw [hfound] at hfound'
      cases hfound'
      have hown := howned c (Model.entity?_mem hfound) x.name hparent f hf
      exact ⟨c, hc, by simpa [Entity.hasField] using hown⟩

end Lookups

/-! ### What is left to do -/

/-- A parent that is no identity root was a parent before. -/
theorem Identified.extends_back (h : Identified m roots s) {a b : String}
    (hab : s.Extends a b) (hb : b ∈ m.entityNames) : m.Extends a b := by
  have ha := Model.mem_entityNames_of_link hab
  rw [h.entityNames, List.mem_append] at ha
  rcases ha with ha | ha
  · unfold Model.Extends at hab
    rw [h.parents ha] at hab
    refine (List.mem_append.mp hab).resolve_left fun habove => ?_
    exact (h.above?_eq_some (Option.mem_toList.mp habove)).2.2.2 hb
  · obtain ⟨root, hroot, rfl⟩ := List.mem_map.mp ha
    have hnone := (h.no_links (if_pos hroot : above? roots root = _)).1
    unfold Model.Extends at hab
    rw [hnone] at hab
    cases hab

/-- What is a root in the end was one before, and those have parents now. -/
theorem Identified.no_root (h : Identified m (m.entityNames.filter m.isRoot) s) (hm : m.Checked)
    (name : String) : s.isRoot name = false := by
  by_contra hroot
  obtain ⟨e', he', hconcrete, hnone, lower, -, -, hpath⟩ :=
    Model.isRoot_iff.mp (by simpa using hroot)
  have hmem : name ∈ s.entityNames := Model.mem_entityNames.mpr ⟨e', he'⟩
  rw [h.entityNames, List.mem_append] at hmem
  rcases hmem with hname | hname
  · obtain ⟨e, he⟩ := Model.mem_entityNames.mp hname
    have hsame := h.entity? he
    rw [he'] at hsame
    cases hsame
    obtain rfl := Model.entity?_name he
    have hnew : e.name ∉ m.entityNames.filter m.isRoot := fun hmem => by
      rw [placed, if_pos hmem] at hnone
      cases hnone
    rw [placed_of_not_mem hnew] at hconcrete hnone
    obtain ⟨c, -, hstep⟩ := TransGen.tail'_iff.mp hpath
    have hextends := h.extends_back hstep hname
    obtain ⟨lower, hlower, -⟩ := Model.mem_linksOf.mp hextends
    obtain rfl := Model.entity?_name hlower
    refine hnew (List.mem_filter.mpr ⟨hname, Model.isRoot_iff.mpr ⟨e, he, hconcrete, hnone, lower,
      Model.entity?_mem hlower, fun heq => ?_, .single hextends⟩⟩)
    exact hm.acyclic.parents e.name (.single (heq ▸ hextends))
  · obtain ⟨root, hmem, rfl⟩ := List.mem_map.mp hname
    obtain ⟨identity, hfound, hidentity⟩ := h.identity? hmem
    rw [he'] at hfound
    cases hfound
    rw [hidentity.isAbstract] at hconcrete
    cases hconcrete

theorem addIdentities_same (h : ∀ name, m.isRoot name = false) : Ends addIdentities m () m := by
  have hnone : m.entityNames.filter m.isRoot = [] := by simp [h]
  refine Ends.get_bind_of ?_
  rw [hnone]
  rfl

end Hierarchy

open Hierarchy (addIdentities discriminatorName identityName)

/-- Identity roots are conservative, and are added once. When adding them succeeds on a checked
hierarchy with distinct entity names, in which every entity owns fields of the names in the
primary keys of its parents, then the roots get them as their only parents, and behind all
entities stands one abstract entity per root, in the order of the roots. Every entity keeps
the fields of its primary key and, under each name but the discriminator's, the field that is
visible on it. No roots are left, and a second run changes nothing. -/
theorem addIdentities_conservative (hcheck : Hierarchy.check m = .ok ())
    (hnodup : m.entityNames.Nodup)
    (howned : ∀ e ∈ m.entities, ∀ parent ∈ e.parents, ∀ f ∈ m.primaryKeyFields parent,
      e.hasField f.name = true) (h : Ends addIdentities m () s) :
    (∃ identities, s = { m with entities := m.entities.map (fun e =>
        if m.isRoot e.name = true then { e with parents := [identityName e.name] } else e) ++
          identities } ∧
      identities.map (·.name) = (m.entityNames.filter m.isRoot).map identityName ∧
      ∀ identity ∈ identities, identity.isAbstract = true) ∧
    (∀ e ∈ m.entities,
      (s.primaryKey? e.name).map (·.fields) = (m.primaryKey? e.name).map (·.fields) ∧
      ∀ field ≠ discriminatorName, s.visibleField? e.name field = m.visibleField? e.name field) ∧
    (∀ name, s.isRoot name = false) ∧ Ends addIdentities s () s := by
  have hm := Model.checked_of_check hcheck
  have hidentified := Hierarchy.addIdentities_identified hm hnodup h
  have hnone := hidentified.no_root hm
  refine ⟨?_, fun e he => ⟨?_, fun field hfield => ?_⟩, hnone, Hierarchy.addIdentities_same hnone⟩
  · obtain ⟨identities, hs, hidentities⟩ := hidentified.entities
    refine ⟨identities, ?_, Hierarchy.identities_names hidentities, fun identity hmem => ?_⟩
    · have hplaced : ∀ e ∈ m.entities, Hierarchy.placed (m.entityNames.filter m.isRoot) e =
          if m.isRoot e.name = true then { e with parents := [identityName e.name] } else e := by
        intro e he
        have hname : e.name ∈ m.entityNames := List.mem_map_of_mem he
        simp [Hierarchy.placed, hname]
      rw [← List.map_congr_left hplaced, ← hs, ← hidentified.frame]
    · obtain ⟨root, -, hidentity⟩ := exists_of_forall₂_right hidentities hmem
      exact hidentity.isAbstract
  · exact hidentified.primaryKey? hm (List.mem_map_of_mem he)
  · exact hidentified.visibleField? hm (List.mem_map_of_mem he) howned hfield

/-- An inn is a house and a business; houses have their key from an interface. -/
def inns : Model :=
  { Model.empty with entities := [
      { Entity.named "Inn" with
        parents := ["House", "Business"], fields := [Field.named "num" .int, Field.named "id" .int] },
      { Entity.named "House" with
        implements := ["Listed"], fields := [Field.named "type" .text] },
      { Entity.named "Business" with
        fields := [Field.named "id" .int, Field.named "title" .text], keys := [⟨["id"], false, none⟩] },
      { Entity.named "Listed" with
        isAbstract := true
        fields := [Field.named "num" .int], keys := [⟨["num"], false, none⟩] }] }

/-- Both roots get identity roots, and the key of an inn is still the number of the house. -/
theorem inns_identified : Hierarchy.check inns = .ok () ∧ inns.entityNames.Nodup ∧
    (∀ e ∈ inns.entities, ∀ parent ∈ e.parents, ∀ f ∈ inns.primaryKeyFields parent,
      e.hasField f.name = true) ∧
    ∃ s, Ends addIdentities inns () s ∧
      s.entities.map (fun e => (e.name, e.parents, e.fields.map (·.name))) =
        [("Inn", ["House", "Business"], ["num", "id"]),
          ("House", ["_HouseInterface"], ["type"]),
          ("Business", ["_BusinessInterface"], ["id", "title"]), ("Listed", [], ["num"]),
          ("_HouseInterface", [], ["type", "num"]), ("_BusinessInterface", [], ["type", "id"])] ∧
      (s.primaryKey? "Inn").map (·.fields) = some ["num"] ∧
      s.visibleField? "Inn" "title" = inns.visibleField? "Inn" "title" ∧
      Ends addIdentities s () s := by
  have hcheck : Hierarchy.check inns = .ok () := by decide +kernel
  have hnodup : inns.entityNames.Nodup := by decide
  have howned : ∀ e ∈ inns.entities, ∀ parent ∈ e.parents, ∀ f ∈ inns.primaryKeyFields parent,
      e.hasField f.name = true := by decide +kernel
  have hrun : (addIdentities.run inns).1.toBool = true ∧
      (addIdentities.run inns).2.entities.map (fun e => (e.name, e.parents, e.fields.map (·.name))) =
        [("Inn", ["House", "Business"], ["num", "id"]),
          ("House", ["_HouseInterface"], ["type"]),
          ("Business", ["_BusinessInterface"], ["id", "title"]), ("Listed", [], ["num"]),
          ("_HouseInterface", [], ["type", "num"]), ("_BusinessInterface", [], ["type", "id"])] := by
    decide +kernel
  obtain ⟨hok, hentities⟩ := hrun
  obtain ⟨_, hok⟩ := Except.exists_ok hok
  have hends : Ends addIdentities inns () (addIdentities.run inns).2 := Prod.ext hok rfl
  obtain ⟨-, hlookups, -, hagain⟩ := addIdentities_conservative hcheck hnodup howned hends
  obtain ⟨hkey, hvisible⟩ := hlookups _ List.mem_cons_self
  have hfirst : (inns.primaryKey? "Inn").map (·.fields) = some ["num"] := by decide +kernel
  exact ⟨hcheck, hnodup, howned, _, hends, hentities, hkey.trans hfirst,
    hvisible "title" (by decide), hagain⟩

end EntitySchema
