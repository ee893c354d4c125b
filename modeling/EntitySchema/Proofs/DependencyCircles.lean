import EntitySchema.Proofs.Order
import Mathlib.Data.List.Sort

/-! The circles that a warning names. They are looked for among the names that got stuck only, but
no path that leads to a stuck name starts at another one, so nothing is missed: the groups are the
classes of more than one entity that depend on each other in the whole model. The groups do not
depend on how components are found, since their members and the groups themselves are put into the
order of the model. -/

namespace EntitySchema

open Relation (ReflTransGen TransGen)

/-! ### Sublists of distinct names -/

section Sublists

variable {names first second : List String} {a : String}

/-- Names in the order of distinct names are known by their members. -/
theorem eq_of_pairwise_precedes (hfirst : first.Pairwise (Precedes names))
    (hsecond : second.Pairwise (Precedes names)) (hmem : ∀ a, a ∈ first ↔ a ∈ second) :
    first = second := by
  have hnodup : ∀ {l : List String}, l.Pairwise (Precedes names) → l.Nodup := fun h =>
    h.imp fun {a b} (hlt : Precedes names a b) (heq : a = b) => Nat.lt_irrefl _ (heq ▸ hlt)
  exact List.Perm.eq_of_pairwise (fun a b _ _ hab hba => absurd hab (Nat.lt_asymm hba)) hfirst
    hsecond ((List.perm_ext_iff_of_nodup (hnodup hfirst) (hnodup hsecond)).mpr hmem)

theorem eq_of_sublist (hnodup : names.Nodup) (hfirst : first.Sublist names)
    (hsecond : second.Sublist names) (hmem : ∀ a, a ∈ first ↔ a ∈ second) : first = second :=
  eq_of_pairwise_precedes ((pairwise_precedes hnodup).sublist hfirst)
    ((pairwise_precedes hnodup).sublist hsecond) hmem

theorem sublist_of_pairwise_precedes (hnodup : names.Nodup)
    (hfirst : first.Pairwise (Precedes names)) (hmem : ∀ a ∈ first, a ∈ names) :
    first.Sublist names := by
  have hfilter : names.filter first.contains = first :=
    eq_of_pairwise_precedes ((pairwise_precedes hnodup).sublist List.filter_sublist) hfirst
      fun a => by simpa using hmem a
  exact hfilter ▸ List.filter_sublist

theorem sublist_of_subset (hnodup : names.Nodup) (hfirst : first.Sublist names)
    (hsecond : second.Sublist names) (hsub : ∀ a ∈ first, a ∈ second) : first.Sublist second := by
  have hfilter : second.filter first.contains = first :=
    eq_of_sublist hnodup (List.filter_sublist.trans hsecond) hfirst fun a => by simpa using hsub a
  exact hfilter ▸ List.filter_sublist

theorem one_lt_length_iff (hnodup : names.Nodup) (ha : a ∈ names) :
    1 < names.length ↔ ∃ b ∈ names, b ≠ a := by
  have hsingle : names.length = 1 ↔ names = [a] := by
    rw [List.length_eq_one_iff]
    exact ⟨fun ⟨x, hx⟩ => by rw [hx] at ha ⊢; rw [List.mem_singleton.mp ha], fun h => ⟨a, h⟩⟩
  have hpos := List.length_pos_of_mem ha
  have hne := hnodup.ne_singleton_iff a
  rw [or_iff_right (List.ne_nil_of_mem ha)] at hne
  rw [← hne, Ne, ← hsingle]
  omega

end Sublists

/-! ### Names that lead to each other -/

/-- Paths lead from each of the two to the other. -/
def Mutual (R : String → String → Prop) (a b : String) : Prop :=
  ReflTransGen R a b ∧ ReflTransGen R b a

/-- The groups are the classes of more than one name that lead to each other. Each holds its
members, and all have their first members, in the order of the names. -/
structure ListsCircles (R : String → String → Prop) (names : List String)
    (groups : List (List String)) : Prop where
  mem_iff : ∀ g, g ∈ groups ↔ 1 < g.length ∧ g.Sublist names ∧ ∃ a, ∀ b, b ∈ g ↔ Mutual R a b
  firsts : (groups.filterMap List.head?).Sublist names

variable {R S : String → String → Prop} {names nodes : List String}
  {groups groups' : List (List String)} {g : List String} {a b : String}

namespace Mutual

theorem refl : Mutual R a a := ⟨.refl, .refl⟩

theorem iff_of_mutual (h : Mutual R a b) {c : String} : Mutual R a c ↔ Mutual R b c :=
  ⟨fun hc => ⟨h.2.trans hc.1, hc.2.trans h.1⟩, fun hc => ⟨h.1.trans hc.1, hc.2.trans h.2⟩⟩

theorem circle (h : Mutual R a b) (hne : b ≠ a) : TransGen R a a := by
  have hab := (Relation.reflTransGen_iff_eq_or_transGen.mp h.1).resolve_left hne
  exact TransGen.trans_left hab h.2

end Mutual

/-- Where all that leads to a node is a node, the whole path to it is one among nodes. -/
theorem path_among (hback : ∀ a b, R a b → b ∈ nodes → a ∈ nodes ∧ S a b)
    (h : ReflTransGen R a b) (hb : b ∈ nodes) : a ∈ nodes ∧ ReflTransGen S a b := by
  induction h using ReflTransGen.head_induction_on with
  | refl => exact ⟨hb, .refl⟩
  | head hac _ ih =>
    obtain ⟨ha, hstep⟩ := hback _ _ hac ih.1
    exact ⟨ha, .head hstep ih.2⟩

namespace ListsCircles

/-- Groups that share a member are the same. -/
theorem eq_of_mem (h : ListsCircles R names groups) (hnodup : names.Nodup) {g' : List String}
    (hg : g ∈ groups) (hg' : g' ∈ groups) (ha : a ∈ g) (ha' : a ∈ g') : g = g' := by
  obtain ⟨-, hsub, x, hx⟩ := (h.mem_iff g).mp hg
  obtain ⟨-, hsub', y, hy⟩ := (h.mem_iff g').mp hg'
  refine eq_of_sublist hnodup hsub hsub' fun b => ?_
  rw [hx, hy, ((hx a).mp ha).iff_of_mutual, ((hy a).mp ha').iff_of_mutual]

theorem exists_head (h : ListsCircles R names groups) (hg : g ∈ groups) :
    ∃ a, g.head? = some a ∧ a ∈ g := by
  obtain ⟨hlong, -⟩ := (h.mem_iff g).mp hg
  cases g with
  | nil => cases hlong
  | cons a rest => exact ⟨a, rfl, List.mem_cons_self⟩

/-- The first member of a group stands before those of later groups. -/
theorem pairwise_heads (h : ListsCircles R names groups) (hnodup : names.Nodup) :
    groups.Pairwise fun g g' => ∀ a, g.head? = some a → ∀ b, g'.head? = some b →
      Precedes names a b :=
  List.pairwise_filterMap.mp ((pairwise_precedes hnodup).sublist h.firsts)

theorem nodup (h : ListsCircles R names groups) (hnodup : names.Nodup) : groups.Nodup := by
  refine (h.pairwise_heads hnodup).imp_of_mem fun hg _ hlt heq => ?_
  obtain ⟨a, ha, -⟩ := h.exists_head hg
  exact Nat.lt_irrefl _ (hlt a ha a (heq ▸ ha))

/-- There is only one way to list the circles. -/
theorem unique (h : ListsCircles R names groups) (h' : ListsCircles R names groups')
    (hnodup : names.Nodup) : groups = groups' := by
  refine List.Perm.eq_of_pairwise (fun g g' hg hg' hlt hlt' => ?_) (h.pairwise_heads hnodup)
    (h'.pairwise_heads hnodup) ((List.perm_ext_iff_of_nodup (h.nodup hnodup)
      (h'.nodup hnodup)).mpr fun g => (h.mem_iff g).trans (h'.mem_iff g).symm)
  obtain ⟨a, ha, -⟩ := h.exists_head hg
  obtain ⟨b, hb, -⟩ := h'.exists_head hg'
  exact absurd (hlt a ha b hb) (Nat.lt_asymm (hlt' b hb a ha))

/-- No name is in two groups, or twice in one. -/
theorem flatten_nodup (h : ListsCircles R names groups) (hnodup : names.Nodup) :
    groups.flatten.Nodup := by
  refine List.nodup_flatten.mpr ⟨fun g hg => ?_, ?_⟩
  · obtain ⟨-, hsub, -⟩ := (h.mem_iff g).mp hg
    exact hnodup.sublist hsub
  · refine (h.nodup hnodup).pairwise_of_forall_ne fun g hg g' hg' hne => ?_
    exact fun a ha ha' => hne (h.eq_of_mem hnodup hg hg' ha ha')

/-- The names in groups are those on circles, where no name leads to itself directly. -/
theorem mem_flatten_iff (h : ListsCircles R names groups) (hnodup : names.Nodup)
    (hmem : ∀ a b, R a b → b ∈ names) (hirrefl : ∀ a, ¬R a a) :
    a ∈ groups.flatten ↔ TransGen R a a := by
  classical
  constructor
  · intro ha
    obtain ⟨g, hg, ha⟩ := List.mem_flatten.mp ha
    obtain ⟨hlong, hsub, x, hx⟩ := (h.mem_iff g).mp hg
    obtain ⟨b, hb, hne⟩ := (one_lt_length_iff (hnodup.sublist hsub) ha).mp hlong
    exact Mutual.circle ((((hx a).mp ha).iff_of_mutual).mp ((hx b).mp hb)) hne
  · intro ha
    obtain ⟨b, hab, hba⟩ := TransGen.head'_iff.mp ha
    have hne : b ≠ a := fun heq => hirrefl a (heq ▸ hab)
    have hclass : ∀ c, c ∈ names.filter (fun c => decide (Mutual R a c)) ↔ Mutual R a c := by
      intro c
      rw [List.mem_filter, decide_eq_true_eq, and_iff_right_iff_imp]
      intro hc
      obtain ⟨y, -, hyc⟩ := TransGen.tail'_iff.mp (TransGen.trans_left ha hc.1)
      exact hmem y c hyc
    have haclass := (hclass a).mpr Mutual.refl
    have hbclass := (hclass b).mpr ⟨.single hab, hba⟩
    refine List.mem_flatten.mpr ⟨_, (h.mem_iff _).mpr ⟨?_, List.filter_sublist, a, hclass⟩, haclass⟩
    exact (one_lt_length_iff (hnodup.filter _) haclass).mpr ⟨b, hbclass, hne⟩

/-- The circles among some of the names are those of the whole, when everything on a circle is one
of these names, and everything that leads to one of them. -/
theorem whole (h : ListsCircles S nodes groups) (hnodup : names.Nodup) (hsub : nodes.Sublist names)
    (hmono : ∀ a b, S a b → R a b) (hback : ∀ a b, R a b → b ∈ nodes → a ∈ nodes ∧ S a b)
    (hcircles : ∀ a, TransGen R a a → a ∈ nodes) : ListsCircles R names groups := by
  have hmutual : ∀ {a b}, a ∈ nodes → (Mutual S a b ↔ Mutual R a b) := by
    intro a b ha
    refine ⟨fun hab => ⟨ReflTransGen.mono hmono _ _ hab.1, ReflTransGen.mono hmono _ _ hab.2⟩,
      fun hab => ?_⟩
    obtain ⟨hb, hba⟩ := path_among hback hab.2 ha
    exact ⟨(path_among hback hab.1 hb).2, hba⟩
  refine ⟨fun g => ⟨fun hg => ?_, fun ⟨hlong, hg, a, hclass⟩ => ?_⟩, h.firsts.trans hsub⟩
  · obtain ⟨hlong, hg, a, hclass⟩ := (h.mem_iff g).mp hg
    have ha := hg.subset ((hclass a).mpr Mutual.refl)
    exact ⟨hlong, hg.trans hsub, a, fun b => (hclass b).trans (hmutual ha)⟩
  · have hag := (hclass a).mpr Mutual.refl
    obtain ⟨b, hb, hne⟩ := (one_lt_length_iff (hnodup.sublist hg) hag).mp hlong
    have ha := hcircles a (((hclass b).mp hb).circle hne)
    refine (h.mem_iff g).mpr ⟨hlong, sublist_of_subset hnodup hg hsub fun c hc => ?_, a,
      fun b => (hclass b).trans (hmutual ha).symm⟩
    exact (path_among hback ((hclass c).mp hc).2 ha).1

end ListsCircles

namespace Dependency

variable {t : Table} {placed stuck : List String}

/-! ### Circles among nodes -/

/-- The table has the second node for the first. -/
def Table.Edge (t : Table) (nodes : List String) (a b : String) : Prop :=
  a ∈ nodes ∧ b ∈ nodes ∧ t.Needs a b

theorem mem_reachable (ha : a ∈ nodes) :
    b ∈ reachable t nodes a ↔ TransGen (t.Edge nodes) a b := by
  unfold reachable
  rw [Closure.mem_reach, TransGen.head'_iff]
  constructor
  · rintro ⟨hb, -, c, hac, hcb⟩
    obtain ⟨hc, hcb⟩ := path_among (S := t.Edge nodes)
      (fun x y hxy hy => ⟨hxy.1, hxy.1, hy, hxy.2.2⟩) hcb hb
    exact ⟨c, ⟨ha, hc, hac⟩, hcb⟩
  · rintro ⟨c, hac, hcb⟩
    have hb : b ∈ nodes := by
      rcases ReflTransGen.cases_tail hcb with rfl | ⟨y, -, hyb⟩
      · exact hac.2.1
      · exact hyb.2.1
    refine ⟨hb, List.not_mem_nil, c, hac.2.2, ?_⟩
    exact Closure.path_mono hcb fun x y hxy => ⟨hxy.1, List.not_mem_nil, hxy.2.2⟩

theorem mem_circleOf (ha : a ∈ nodes) : b ∈ circleOf t nodes a ↔ Mutual (t.Edge nodes) a b := by
  unfold circleOf Mutual
  simp only [List.mem_filter, Bool.or_eq_true, decide_eq_true_eq, Bool.and_eq_true,
    List.contains_iff_mem, mem_reachable ha, Relation.reflTransGen_iff_eq_or_transGen]
  constructor
  · rintro ⟨hb, rfl | ⟨hab, hba⟩⟩
    · exact ⟨.inl rfl, .inl rfl⟩
    · exact ⟨.inr hab, .inr ((mem_reachable hb).mp hba)⟩
  · rintro ⟨rfl | hab, hba⟩
    · exact ⟨ha, .inl rfl⟩
    · obtain ⟨y, -, hyb⟩ := TransGen.tail'_iff.mp hab
      have hb : b ∈ nodes := hyb.2.1
      exact ⟨hb, hba.imp Eq.symm fun hba => ⟨hab, (mem_reachable hb).mpr hba⟩⟩

theorem circles_listed (hnodup : nodes.Nodup) :
    ListsCircles (t.Edge nodes) nodes (circles t nodes) := by
  unfold circles
  refine ⟨fun g => ?_, ?_⟩
  · simp only [List.mem_filterMap, Option.ite_none_right_eq_some, Option.some.injEq,
      Bool.and_eq_true, decide_eq_true_eq]
    constructor
    · rintro ⟨a, ha, ⟨hlong, -⟩, rfl⟩
      exact ⟨hlong, List.filter_sublist, a, fun b => mem_circleOf ha⟩
    · rintro ⟨hlong, hsub, a, hclass⟩
      cases g with
      | nil => cases hlong
      | cons first rest =>
        have hfirst := (hclass first).mp List.mem_cons_self
        have hmem : first ∈ nodes := hsub.subset List.mem_cons_self
        have hcircle : circleOf t nodes first = first :: rest :=
          eq_of_sublist hnodup List.filter_sublist hsub fun b => by
            rw [mem_circleOf hmem, hclass, hfirst.iff_of_mutual]
        refine ⟨first, hmem, ?_, hcircle⟩
        rw [hcircle]
        exact ⟨hlong, rfl⟩
  · have hfirst : (fun name => (let circle := circleOf t nodes name
        if 1 < circle.length && circle.head? = some name then some circle else none).bind
          List.head?) = Option.guard fun name =>
            1 < (circleOf t nodes name).length && (circleOf t nodes name).head? = some name := by
      funext name
      by_cases h : 1 < (circleOf t nodes name).length ∧ (circleOf t nodes name).head? = some name
        <;> simp [Option.guard, h]
    rw [List.filterMap_filterMap, hfirst, List.filterMap_eq_filter]
    exact List.filter_sublist

/-! ### Circles from components -/

/-- What a search for strongly connected components lists: every node is in one of them, once, and
with it are the nodes that lead to it and to which it leads. -/
structure IsComponents (R : String → String → Prop) (nodes : List String)
    (components : List (List String)) : Prop where
  perm : components.flatten.Perm nodes
  mem_iff : ∀ c ∈ components, ∀ a ∈ c, ∀ b, b ∈ c ↔ Mutual R a b

/-- Names in the order of the nodes. -/
def sorted (nodes names : List String) : List String :=
  names.mergeSort fun a b => nodes.idxOf a ≤ nodes.idxOf b

/-- Where the first name of a group stands; a group without names comes last. -/
def position (nodes g : List String) : ℕ := (g.head?.map nodes.idxOf).getD nodes.length

/-- The groups that components give: those of more than one node or of a node that leads to
itself, sorted, in the order of their first members. -/
def groupsOf (t : Table) (nodes : List String) (components : List (List String)) :
    List (List String) :=
  ((components.filter fun c => 1 < c.length || c.any fun a => (t.of a).contains a).map
    (sorted nodes)).mergeSort fun g g' => position nodes g ≤ position nodes g'

/-- What is sorted by a key has its keys in order. -/
theorem pairwise_keys {α : Type} (key : α → ℕ) (xs : List α) :
    (xs.mergeSort fun x y => key x ≤ key y).Pairwise fun x y => key x ≤ key y := by
  have hsorted : (xs.mergeSort fun x y => key x ≤ key y).Pairwise fun x y =>
      decide (key x ≤ key y) :=
    List.pairwise_mergeSort (fun x y z => by simpa using Nat.le_trans)
      (fun x y => by simpa using Nat.le_total (key x) (key y)) xs
  exact hsorted.imp of_decide_eq_true

theorem precedes_of_le (ha : a ∈ nodes) (hne : a ≠ b) (hle : nodes.idxOf a ≤ nodes.idxOf b) :
    Precedes nodes a b :=
  Nat.lt_of_le_of_ne hle fun heq => hne ((List.idxOf_inj ha).mp heq)

theorem mem_sorted : a ∈ sorted nodes names ↔ a ∈ names := List.mem_mergeSort

theorem sorted_sublist (hnodup : nodes.Nodup) (hnames : names.Nodup)
    (hmem : ∀ a ∈ names, a ∈ nodes) : (sorted nodes names).Sublist nodes := by
  have hle := pairwise_keys nodes.idxOf names
  have hne : (sorted nodes names).Nodup := (List.mergeSort_perm _ _).nodup_iff.mpr hnames
  refine sublist_of_pairwise_precedes hnodup ?_ fun a ha => hmem a (mem_sorted.mp ha)
  exact (hle.and hne).imp_of_mem fun ha _ h =>
    precedes_of_le (hmem _ (mem_sorted.mp ha)) h.2 h.1

namespace IsComponents

variable {components : List (List String)}

theorem component_nodup (h : IsComponents R nodes components) (hnodup : nodes.Nodup) :
    (∀ c ∈ components, c.Nodup) ∧ components.Pairwise List.Disjoint :=
  List.nodup_flatten.mp (h.perm.nodup_iff.mpr hnodup)

theorem mem_nodes (h : IsComponents R nodes components) {c : List String} (hc : c ∈ components)
    (ha : a ∈ c) : a ∈ nodes :=
  h.perm.mem_iff.mp (List.mem_flatten_of_mem hc ha)

/-- Where no node leads to itself directly, a group is a component of more than one node. -/
theorem mem_groupsOf (hirrefl : ∀ a, ¬t.Needs a a) : g ∈ groupsOf t nodes components ↔
    ∃ c ∈ components, 1 < c.length ∧ sorted nodes c = g := by
  have hself : ∀ c : List String, (c.any fun a => (t.of a).contains a) = false := fun c =>
    List.any_eq_false.mpr fun a _ => by simpa [Table.Needs] using hirrefl a
  unfold groupsOf
  simp only [List.mem_mergeSort, List.mem_map, List.mem_filter, hself, Bool.or_false,
    decide_eq_true_eq, and_assoc]

/-- The first members of the groups stand in the order of the nodes. -/
theorem groupsOf_firsts (h : IsComponents R nodes components) (hnodup : nodes.Nodup)
    (hirrefl : ∀ a, ¬t.Needs a a) :
    ((groupsOf t nodes components).filterMap List.head?).Sublist nodes := by
  obtain ⟨-, hdisjoint⟩ := h.component_nodup hnodup
  have hmem : ∀ g ∈ groupsOf t nodes components, ∀ a, g.head? = some a → a ∈ nodes := by
    intro g hg a ha
    obtain ⟨c, hc, -, rfl⟩ := (mem_groupsOf hirrefl).mp hg
    exact h.mem_nodes hc (mem_sorted.mp (List.mem_of_head? ha))
  have hapart : (groupsOf t nodes components).Pairwise List.Disjoint := by
    refine ((List.mergeSort_perm _ _).pairwise_iff fun hd => hd.symm).mpr (List.pairwise_map.mpr ?_)
    exact (hdisjoint.filter _).imp fun hd a ha ha' => hd (mem_sorted.mp ha) (mem_sorted.mp ha')
  have hle : (groupsOf t nodes components).Pairwise fun g g' =>
      position nodes g ≤ position nodes g' :=
    pairwise_keys (position nodes) _
  refine sublist_of_pairwise_precedes hnodup (List.pairwise_filterMap.mpr ?_) fun a ha => ?_
  · refine (hle.and hapart).imp_of_mem fun hg _ h a ha b hb => ?_
    have hle := h.1
    simp only [position, ha, hb, Option.map_some, Option.getD_some] at hle
    refine precedes_of_le (hmem _ hg a ha) (fun heq => ?_) hle
    exact h.2 (List.mem_of_head? ha) (heq ▸ List.mem_of_head? hb)
  · obtain ⟨g, hg, ha⟩ := List.mem_filterMap.mp ha
    exact hmem g hg a ha

/-- However components are found, the groups that they give are the circles. -/
theorem groupsOf_listed (h : IsComponents (t.Edge nodes) nodes components) (hnodup : nodes.Nodup)
    (hirrefl : ∀ a, ¬t.Needs a a) :
    ListsCircles (t.Edge nodes) nodes (groupsOf t nodes components) := by
  obtain ⟨hdistinct, -⟩ := h.component_nodup hnodup
  have hsub : ∀ c ∈ components, (sorted nodes c).Sublist nodes := fun c hc =>
    sorted_sublist hnodup (hdistinct c hc) fun a => h.mem_nodes hc
  refine ⟨fun g => ?_, h.groupsOf_firsts hnodup hirrefl⟩
  rw [mem_groupsOf hirrefl]
  constructor
  · rintro ⟨c, hc, hlong, rfl⟩
    obtain ⟨a, ha⟩ := List.exists_mem_of_length_pos (Nat.lt_of_succ_lt hlong)
    refine ⟨by rwa [sorted, List.length_mergeSort], hsub c hc, a, fun b => ?_⟩
    rw [mem_sorted, h.mem_iff c hc a ha]
  · rintro ⟨hlong, hg, a, hclass⟩
    have ha := hg.subset ((hclass a).mpr Mutual.refl)
    obtain ⟨c, hc, hac⟩ := List.mem_flatten.mp (h.perm.mem_iff.mpr ha)
    have hsame : sorted nodes c = g := eq_of_sublist hnodup (hsub c hc) hg fun b => by
      rw [mem_sorted, h.mem_iff c hc a hac, hclass]
    refine ⟨c, hc, ?_, hsame⟩
    rwa [← hsame, sorted, List.length_mergeSort] at hlong

end IsComponents

/-! ### The warning -/

variable {m : Model}

theorem eraseDups_of_nodup (hnodup : names.Nodup) : names.eraseDups = names := by
  induction names with
  | nil => rfl
  | cons name rest ih =>
    obtain ⟨hname, hrest⟩ := List.nodup_cons.mp hnodup
    have hkept : rest.filter (fun other => !other == name) = rest :=
      List.filter_eq_self.mpr fun other hother => by
        simpa using fun heq : other = name => hname (heq ▸ hother)
    rw [List.eraseDups_cons, hkept, ih hrest]

/-- The circles among the names that are stuck are those of all dependencies. -/
theorem circles_whole (hnodup : m.entityNames.Nodup)
    (hplace : place (table m) [] m.entityNames = (placed, stuck)) :
    ListsCircles (DependsOn m) m.entityNames (circles (table m) stuck) := by
  obtain ⟨-, -, hsub, hstuck⟩ := place_table hnodup hplace
  refine (circles_listed (hnodup.sublist hsub)).whole hnodup hsub (fun a b hab => ?_)
    (fun a b hab hb => ?_) fun a ha => ?_
  · rw [← table_needs]
    exact hab.2.2
  · obtain ⟨-, c, hbc, hc⟩ := (hstuck b).mp hb
    have ha : a ∈ stuck := (hstuck a).mpr ⟨hab.mem_left, c, .head hab hbc, hc⟩
    exact ⟨ha, ha, hb, by rwa [table_needs]⟩
  · obtain ⟨x, hax, -⟩ := TransGen.head'_iff.mp ha
    exact (hstuck a).mpr ⟨hax.mem_left, a, .refl, ha⟩

/-- When entities get stuck, the warning names what each of them waits for and groups of them.
The groups are the classes of at least two entities that depend on each other, directly or not, in
the whole model: each holds its members in model order, and they come in the order of their first
members. So the entities on circles are each in exactly one group, and no other entity is in any.
Whatever lists the strongly connected components of what is stuck, they give these groups. -/
theorem order_circles (hnodup : m.entityNames.Nodup)
    (hplace : place (table m) [] m.entityNames = (placed, stuck)) (hstuck : stuck ≠ []) :
    ∃ groups : List (List String),
      (order m).warning = some ⟨.dependencyCycle,
        "dependency cycle, appended in model order: " ++
          "; ".intercalate (stuck.map (unmet (table m) placed)) ++ "; cycles: " ++
          " ".intercalate (groups.map fun g => "[" ++ ", ".intercalate g ++ "]")⟩ ∧
      ListsCircles (DependsOn m) m.entityNames groups ∧
      groups.flatten.Nodup ∧ (∀ a, a ∈ groups.flatten ↔ TransGen (DependsOn m) a a) ∧
      ∀ components, IsComponents ((table m).Edge stuck) stuck components →
        groupsOf (table m) stuck components = groups := by
  have hlisted := circles_whole hnodup hplace
  obtain ⟨-, -, hsub, -⟩ := place_table hnodup hplace
  have hdistinct := hnodup.sublist hsub
  have hirrefl : ∀ a, ¬DependsOn m a a := fun a h => h.2.1 rfl
  refine ⟨circles (table m) stuck, ?_, hlisted, hlisted.flatten_nodup hnodup,
    fun a => hlisted.mem_flatten_iff hnodup (fun _ _ hab => hab.mem_right) hirrefl,
    fun components h => ?_⟩
  · rw [order_eq hplace, if_neg hstuck, cycleWarning, eraseDups_of_nodup hdistinct]
    rfl
  · rw [← table_needs] at hirrefl
    exact (h.groupsOf_listed hdistinct hirrefl).unique (circles_listed hdistinct) hdistinct

theorem rivals_circles : rivals.entityNames.Nodup ∧
    (order rivals).warning = some ⟨.dependencyCycle, "dependency cycle, appended in model order: " ++
      "Fan -> [Red]; Red -> [Blue]; Blue -> [Red]; cycles: [Red, Blue]"⟩ ∧
    IsComponents ((table rivals).Edge ["Fan", "Red", "Blue"]) ["Fan", "Red", "Blue"]
      [["Blue", "Red"], ["Fan"]] ∧
    groupsOf (table rivals) ["Fan", "Red", "Blue"] [["Blue", "Red"], ["Fan"]] =
      [["Red", "Blue"]] := by
  have hnodup : rivals.entityNames.Nodup := by decide +kernel
  have hplace : place (table rivals) [] rivals.entityNames = (["Field"], ["Fan", "Red", "Blue"]) := by
    decide +kernel
  obtain ⟨groups, hwarning, hlisted, -, -, hgroups⟩ :=
    order_circles hnodup hplace (List.cons_ne_nil _ _)
  have hcircles : circles (table rivals) ["Fan", "Red", "Blue"] = [["Red", "Blue"]] := by
    decide +kernel
  obtain rfl := (hlisted.unique (circles_whole hnodup hplace) hnodup).trans hcircles
  have hmem : ∀ c ∈ [["Blue", "Red"], ["Fan"]], ∀ a ∈ c, a ∈ ["Fan", "Red", "Blue"] ∧
      c.Perm (circleOf (table rivals) ["Fan", "Red", "Blue"] a) := by
    decide +kernel
  have hcomponents : IsComponents ((table rivals).Edge ["Fan", "Red", "Blue"])
      ["Fan", "Red", "Blue"] [["Blue", "Red"], ["Fan"]] := by
    refine ⟨by decide +kernel, fun c hc a ha b => ?_⟩
    rw [← mem_circleOf (hmem c hc a ha).1, (hmem c hc a ha).2.mem_iff]
  refine ⟨hnodup, ?_, hcomponents, hgroups _ hcomponents⟩
  rw [hwarning]
  decide +kernel

end Dependency

end EntitySchema
