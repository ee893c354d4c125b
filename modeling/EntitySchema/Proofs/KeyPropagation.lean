import EntitySchema.Proofs.KeyCopies

/-! Keys down the hierarchy. Every entity gets the keys of its interfaces, which nothing
changes afterwards; and when the turn of an entity comes, its parents are what they stay,
so that it holds their primary keys in the end. A second run finds nothing to do. -/

namespace EntitySchema

open Relation (ReflTransGen TransGen)
open Model (Evolves)
open Entity (Copies Gains HoldsKey IsChange SameKeys SameStanding isChange_copies isChange_gains
  isChange_sameKeys isChange_sameStanding)

variable {m m' m₁ : Model} {a b name parent : String} {e e' : Entity} {u : Unit}

/-! ### What stays -/

theorem eq_of_forall₂ {α : Type} {R : α → α → Prop} :
    ∀ {xs ys : List α}, List.Forall₂ R xs ys → (∀ x ∈ xs, ∀ y, R x y → y = x) → ys = xs
  | _, _, .nil, _ => rfl
  | _, _, .cons (a := x) hxy hrest, h => by
    rw [h x List.mem_cons_self _ hxy,
      eq_of_forall₂ hrest fun y hy => h y (List.mem_cons_of_mem _ hy)]

namespace Entity

/-- The entity has more fields and keys, none if its name is one of these. -/
structure FixedAt (fixed : String → Prop) (e e' : Entity) : Prop where
  gains : Gains e e'
  same : fixed e.name → e' = e

theorem isChange_fixedAt (fixed : String → Prop) : IsChange (FixedAt fixed) where
  refl e := ⟨isChange_gains.refl e, fun _ => rfl⟩
  trans h₁ h₂ := ⟨isChange_gains.trans h₁.gains h₂.gains, fun hfixed =>
    (h₂.same (isChange_gains.name h₁.gains ▸ hfixed)).trans (h₁.same hfixed)⟩
  name h := isChange_gains.name h.gains

end Entity

open Entity (FixedAt isChange_fixedAt)

namespace Model

/-- What stays in every entity of a lineage, the lineage shows. -/
theorem lineage_fixed {fixed : String → Prop} (hm : m.Closed)
    (h : Evolves (FixedAt fixed) [] m m') (hname : name ∈ m.entityNames)
    (hfixed : ∀ e ∈ m.lineage name, fixed e.name) : m'.lineage name = m.lineage name :=
  eq_of_forall₂ (lineage_change (isChange_fixedAt fixed) (fun _ _ h => h.gains.sameStanding) hm h hname)
    fun e he _ hsame => hsame.same (hfixed e he)

theorem primaryKey?_congr (h : m'.lineage name = m.lineage name) :
    m'.primaryKey? name = m.primaryKey? name := by
  unfold primaryKey? allKeys
  rw [h]

theorem primaryKeyFields_congr (h : m'.lineage name = m.lineage name) :
    m'.primaryKeyFields name = m.primaryKeyFields name := by
  unfold primaryKeyFields visibleField? allFields
  rw [primaryKey?_congr h, h]

end Model

namespace Hierarchy

/-! ### The two stages -/

/-- Copies the primary keys of all parents of an entity into it. -/
def copyParentKeys (name : String) : Pass Unit := do
  ((← get).linksOf (·.parents) name).forM fun parent => Pass.step (copyParentKey name parent)

theorem propagateKeys_stages (h : Ends propagateKeys m u m') : check m = .ok () ∧ ∃ m₁,
    Ends (m.entityNames.forM fun name => Pass.change (copyInterfaceKeys name)) m () m₁ ∧
      Ends ((topDown m₁).forM copyParentKeys) m₁ () m' := by
  unfold propagateKeys at h
  obtain ⟨_, hcheck, h⟩ := Pass.check_bind h
  obtain ⟨_, m₁, hinterfaces, hparents⟩ := h.get_bind.bind
  exact ⟨Except.mapError_ok (g := Failure.hierarchy) hcheck, m₁, hinterfaces, hparents.get_bind⟩

theorem propagateKeys_of_stages (hcheck : check m = .ok ())
    (hinterfaces : Ends (m.entityNames.forM fun name => Pass.change (copyInterfaceKeys name))
      m () m₁)
    (hparents : Ends ((topDown m₁).forM copyParentKeys) m₁ () m') : Ends propagateKeys m () m' := by
  have hpass : Ends (Pass.check fun m => check m) m () m :=
    Pass.check_of (by rw [hcheck]; rfl)
  exact hpass.bind_of (hinterfaces.bind_of hparents)

section Interfaces

variable {names : List String} (hm : m.Checked)

include hm in
/-- Keys of interfaces are copied without a change to any key. -/
theorem copyInterfaceKeys_loop {s s' : Model} (hs : Evolves (Copies m) [] m s)
    (hkeys : Evolves SameKeys [] m s)
    (h : Ends (names.forM fun name => Pass.change (copyInterfaceKeys name)) s u s') :
    Evolves (Copies m) [] m s' ∧ Evolves SameKeys [] m s' := by
  refine h.forM_keeps (fun s' => Evolves (Copies m) [] m s' ∧ Evolves SameKeys [] m s')
    (fun name _ s₁ s₂ hstep ⟨hs, hkeys⟩ => ?_) ⟨hs, hkeys⟩
  obtain rfl := Pass.change_ends hstep
  exact ⟨hs.trans_nil (isChange_copies m) (copyInterfaceKeys_copies hm.layered hs name),
    hkeys.trans_nil isChange_sameKeys (copyInterfaceKeys_takes name hm.closed hkeys).2⟩

include hm in
/-- Every entity gets the keys of its interfaces, of those that consist of one field. -/
theorem copyInterfaceKeys_complete {i field : String}
    (h : Ends (names.forM fun name => Pass.change (copyInterfaceKeys name)) m u m₁)
    (hname : name ∈ names) (he : m.entity? name = some e) (hpath : TransGen m.Implements name i)
    (hkey : (m.primaryKey? i).map (·.fields) = some [field]) (hsees : m.Sees i field) :
    Link.Owns m₁ name field := by
  obtain ⟨before, after, rfl⟩ := List.append_of_mem hname
  obtain ⟨s₁, s₂, hbefore, hround, hafter⟩ := h.forM_split
  obtain ⟨hs₁, hkeys⟩ := copyInterfaceKeys_loop hm (.refl (isChange_copies m) m)
    (.refl isChange_sameKeys m) hbefore
  have hstanding : Evolves SameStanding [] m s₁ := hkeys.mono fun _ _ h => h.toSameStanding
  -- when the turn of the entity comes, the interface has its key and shows the field
  obtain ⟨interface, hi, -⟩ := hm.layered.interface_of_path hpath
  obtain ⟨e₁, he₁, -⟩ := hs₁.entity? (isChange_copies m) he
  obtain ⟨i₁, hi₁, -⟩ := hs₁.entity? (isChange_copies m) hi
  obtain rfl := Model.entity?_name hi₁
  have hmem : i₁ ∈ s₁.ownInterfaces name := by
    refine Model.mem_ownInterfaces.mpr ⟨hi₁, fun heq => ?_, ?_⟩
    · exact hm.acyclic.interfaces name (by rwa [heq] at hpath)
    · rwa [Model.implements_standing hstanding]
  rw [← Model.primaryKey?_sameKeys hm.closed hkeys (Model.mem_entityNames.mpr ⟨interface, hi⟩)]
    at hkey
  obtain ⟨f, hf, rfl⟩ :=
    singleKeyField?_some hkey ((Model.sees_copies hm.layered hs₁).mpr hsees)
  have howns := copyInterfaceKeys_owns he₁ hmem hf
  rw [← Pass.change_ends hround] at howns
  refine howns.gains (.forM isChange_gains (fun name _ s s' hstep => ?_) hafter)
  obtain rfl := Pass.change_ends hstep
  exact copyInterfaceKeys_gains name s

end Interfaces

section Parents

variable {s s' : Model} {names : List String}

theorem copyParentKeys_gains (h : Ends (copyParentKeys name) m u m') : Evolves Gains [] m m' :=
  .forM isChange_gains (fun _ _ _ _ hstep => copyParentKey_gains (Pass.step_ends hstep)) h.get_bind

theorem copyParentKeys_copies (hm : m.Layered) (hs : Evolves (Copies m) [] m s)
    (h : Ends (copyParentKeys name) s u s') : Evolves (Copies m) [] m s' := by
  refine h.get_bind.forM_keeps (Evolves (Copies m) [] m) (fun parent hparent s₁ s₂ hstep hs₁ => ?_) hs
  have hparent : m.Extends name parent := by
    rwa [← Model.extends_standing (hs.mono fun _ _ h => h.gains.sameStanding)]
  exact hs₁.trans_nil (isChange_copies m)
    (copyParentKey_copies hm hs₁ hparent (Pass.step_ends hstep))

theorem copyParentKey_fixed {fixed : String → Prop} (hname : ¬fixed name)
    (h : copyParentKey name parent m = .ok m') : Evolves (FixedAt fixed) [] m m' := by
  obtain ⟨-, rfl⟩ := copyParentKey_ok.mp h
  refine .changeEntity (isChange_fixedAt fixed) fun e he => ?_
  refine ⟨isChange_gains.trans (addParentKeyFields_gains parent _ e) (leadWithKey_gains _ _),
    fun hfixed => absurd ?_ hname⟩
  rwa [← Model.entity?_name he]

/-- The rounds of a loop change only entities that have their turn, and parents. -/
theorem copyParentKeys_fixed {fixed : String → Prop} (hs : Evolves SameStanding [] m s)
    (hnames : ∀ name ∈ names, m.linksOf (·.parents) name ≠ [] → ¬fixed name)
    (h : Ends (names.forM copyParentKeys) s u s') : Evolves (FixedAt fixed) [] s s' := by
  refine h.forM_keeps (Evolves (FixedAt fixed) [] s) (fun name hmem s₁ s₂ hstep hs₁ => ?_)
    (.refl (isChange_fixedAt fixed) s)
  have hstanding := hs.trans_nil isChange_sameStanding (hs₁.mono fun _ _ h => h.gains.sameStanding)
  refine hs₁.trans_nil (isChange_fixedAt fixed) (.forM (isChange_fixedAt fixed)
    (fun parent hparent _ _ hstep => ?_) hstep.get_bind)
  rw [Model.linksOf_standing (fun _ _ h => h.parents) hstanding] at hparent
  exact copyParentKey_fixed (hnames name hmem (List.ne_nil_of_mem hparent)) (Pass.step_ends hstep)

/-- The entity has had its turn when that of the second one comes, or never has any. -/
def Settled (m : Model) (name x : String) : Prop :=
  (m.ancestors x).length < (m.ancestors name).length ∨ m.linksOf (·.parents) x = []

theorem not_settled_self (hparent : m.Extends name parent) : ¬Settled m name name := by
  rintro (hlt | hnone)
  · exact Nat.lt_irrefl _ hlt
  · unfold Model.Extends at hparent
    rw [hnone] at hparent
    cases hparent

/-- The step that copies the key of one parent, in between all others. The steps after it
leave alone what is settled. -/
theorem copyParentKeys_turn (h : Ends ((topDown m).forM copyParentKeys) m u m')
    (hparent : m.Extends name parent) : ∃ t t', Evolves Gains [] m t ∧
      copyParentKey name parent t = .ok t' ∧ Evolves (FixedAt (Settled m name)) [] t' m' := by
  have hfixed := isChange_fixedAt (Settled m name)
  have hself := not_settled_self hparent
  have hsorted := topDown_sorted m
  obtain ⟨before, after, hnames⟩ :=
    List.append_of_mem (mem_topDown.mpr (Model.mem_entityNames_of_link hparent))
  rw [hnames] at h hsorted
  obtain ⟨-, hafter, -⟩ := List.pairwise_append.mp hsorted
  obtain ⟨s₁, s₂, hbefore, hround, hrest⟩ := h.forM_split
  have hs₁ : Evolves Gains [] m s₁ :=
    .forM isChange_gains (fun _ _ _ _ hstep => copyParentKeys_gains hstep) hbefore
  have hlink : parent ∈ s₁.linksOf (·.parents) name := by
    rwa [Model.linksOf_standing (fun _ _ h => h.parents) (hs₁.mono fun _ _ h => h.sameStanding)]
  obtain ⟨first, others, hlinks⟩ := List.append_of_mem hlink
  have hs₂ := hs₁.trans_nil isChange_gains (copyParentKeys_gains hround)
  have hround := hround.get_bind
  rw [hlinks] at hround
  obtain ⟨t, t', hfirst, hstep, hothers⟩ := hround.forM_split
  refine ⟨t, t', hs₁.trans_nil isChange_gains ?_, Pass.step_ends hstep, .trans_nil hfixed
    (.forM hfixed ?_ hothers)
    (copyParentKeys_fixed (hs₂.mono fun _ _ h => h.sameStanding) ?_ hrest)⟩
  · exact .forM isChange_gains (fun _ _ _ _ hstep => copyParentKey_gains (Pass.step_ends hstep)) hfirst
  · exact fun _ _ _ _ hstep => copyParentKey_fixed hself (Pass.step_ends hstep)
  · rintro x hx hparents (hlt | hnone)
    · exact Nat.not_lt.mpr ((List.pairwise_cons.mp hafter).1 x hx) hlt
    · exact hparents hnone

/-- In the end an entity holds the primary keys that its parents have then: nothing in the
lineage of a parent changes once its key was copied. -/
theorem copyParentKeys_complete (hm : m.Checked)
    (h : Ends ((topDown m).forM copyParentKeys) m u m') (hparent : m.Extends name parent) :
    m'.primaryKeyFields parent ≠ [] ∧ ∃ e', m'.entity? name = some e' ∧
      e'.HoldsKey ((m'.primaryKeyFields parent).map (·.name)) := by
  obtain ⟨t, t', hgains, hstep, hrest⟩ := copyParentKeys_turn h hparent
  have hstanding : Evolves SameStanding [] m t := hgains.mono fun _ _ h => h.sameStanding
  have hfixed := (copyParentKey_fixed (not_settled_self hparent) hstep).trans_nil
    (isChange_fixedAt _) hrest
  obtain ⟨p, hp, -⟩ := hm.layered.parent hparent
  obtain ⟨p₁, hp₁, -⟩ := hgains.entity? isChange_gains hp
  have hlineage : m'.lineage parent = t.lineage parent := by
    refine Model.lineage_fixed (hm.closed.standing hstanding) hfixed
      (Model.mem_entityNames.mpr ⟨p₁, hp₁⟩) fun x hx => ?_
    obtain ⟨y, hy, -, hsame⟩ :=
      Model.mem_lineage_change_back isChange_sameStanding (fun _ _ h => h) hstanding hx
    rw [hsame.name]
    exact hm.lineage_above hparent hy
  rw [Model.primaryKeyFields_congr hlineage]
  obtain ⟨e, he⟩ := Model.mem_entityNames.mp (Model.mem_entityNames_of_link hparent)
  obtain ⟨e₁, he₁, -⟩ := hgains.entity? isChange_gains he
  obtain ⟨e₂, he₂, hholds⟩ := copyParentKey_holds he₁ hstep
  obtain ⟨e', he', hsame⟩ := hrest.entity? (isChange_fixedAt _) he₂
  exact ⟨(copyParentKey_ok.mp hstep).1, e', he', hsame.gains.holdsKey hholds⟩

/-- Interfaces keep their primary keys. -/
theorem copyParentKeys_interface {i : String} (hm : m.Checked)
    (h : Ends ((topDown m).forM copyParentKeys) m u m') (hpath : TransGen m.Implements a i) :
    m'.primaryKey? i = m.primaryKey? i := by
  obtain ⟨e, he, -⟩ := hm.layered.interface_of_path hpath
  refine Model.primaryKey?_congr (Model.lineage_fixed hm.closed
    (copyParentKeys_fixed (.refl isChange_sameStanding m) (fun _ _ h => h) h)
    (Model.mem_entityNames.mpr ⟨e, he⟩) fun e he => hm.lineage_interface hpath he)

end Parents

/-! ### The whole run -/

/-- Nothing but entities changes. -/
theorem propagateKeys_frame (h : Ends propagateKeys m u m') :
    { m' with entities := m.entities } = m := by
  obtain ⟨-, m₁, hinterfaces, hparents⟩ := propagateKeys_stages h
  have hm₁ := hinterfaces.forM_keeps (fun s => { s with entities := m.entities } = m)
    (fun name _ s s' hstep hs => by
      obtain rfl := Pass.change_ends hstep
      unfold copyInterfaceKeys
      split
      · exact hs
      · exact hs) rfl
  refine hparents.forM_keeps (fun s => { s with entities := m.entities } = m)
    (fun name _ s s' hround hs => ?_) hm₁
  refine hround.get_bind.forM_keeps (fun s => { s with entities := m.entities } = m)
    (fun parent _ s s' hstep hs => ?_) hs
  obtain ⟨-, rfl⟩ := copyParentKey_ok.mp (Pass.step_ends hstep)
  exact hs

theorem propagateKeys_copies (h : Ends propagateKeys m u m') : Evolves (Copies m) [] m m' := by
  obtain ⟨hcheck, m₁, hinterfaces, hparents⟩ := propagateKeys_stages h
  have hm := Model.checked_of_check hcheck
  obtain ⟨hm₁, -⟩ := copyInterfaceKeys_loop hm (.refl (isChange_copies m) m)
    (.refl isChange_sameKeys m) hinterfaces
  exact hparents.forM_keeps (Evolves (Copies m) [] m)
    (fun _ _ _ _ hround hs => copyParentKeys_copies hm.layered hs hround) hm₁

/-- Every entity owns the keys of its interfaces and holds those of its parents. -/
structure Complete (m : Model) : Prop where
  interfaces : ∀ {e i field}, m.entity? e.name = some e → TransGen m.Implements e.name i →
    (m.primaryKey? i).map (·.fields) = some [field] → m.Sees i field → e.hasField field = true
  parents : ∀ {e parent}, m.entity? e.name = some e → m.Extends e.name parent →
    m.primaryKeyFields parent ≠ [] ∧ e.HoldsKey ((m.primaryKeyFields parent).map (·.name))

theorem propagateKeys_completes (h : Ends propagateKeys m u m') : Complete m' := by
  have hcopies := propagateKeys_copies h
  have hstanding' : Evolves SameStanding [] m m' := hcopies.mono fun _ _ h => h.gains.sameStanding
  obtain ⟨hcheck, m₁, hinterfaces, hparents⟩ := propagateKeys_stages h
  have hm := Model.checked_of_check hcheck
  obtain ⟨-, hkeys⟩ := copyInterfaceKeys_loop hm (.refl (isChange_copies m) m)
    (.refl isChange_sameKeys m) hinterfaces
  have hstanding : Evolves SameStanding [] m m₁ := hkeys.mono fun _ _ h => h.toSameStanding
  have hm₁ := hm.standing hstanding
  refine ⟨fun {e i field} he hpath hkey hsees => ?_, fun {e parent} he hparent => ?_⟩
  · obtain ⟨e₀, he₀, -⟩ := hcopies.entity?_back (isChange_copies m) he (by simp)
    rw [Model.implements_standing hstanding'] at hpath
    obtain ⟨i₀, hi₀, -⟩ := hm.layered.interface_of_path hpath
    rw [copyParentKeys_interface hm₁ hparents (by rwa [Model.implements_standing hstanding]),
      Model.primaryKey?_sameKeys hm.closed hkeys (Model.mem_entityNames.mpr ⟨i₀, hi₀⟩)] at hkey
    have howns := copyInterfaceKeys_complete hm hinterfaces (Model.mem_entityNames.mpr ⟨e₀, he₀⟩)
      he₀ hpath hkey ((Model.sees_copies hm.layered hcopies).mp hsees)
    obtain ⟨e', he', f, hf, hname⟩ := howns.gains
      (.forM isChange_gains (fun _ _ _ _ hstep => copyParentKeys_gains hstep) hparents)
    rw [he] at he'
    cases he'
    exact List.any_eq_true.mpr ⟨f, hf, by simpa using hname⟩
  · rw [Model.extends_standing hstanding', ← Model.extends_standing hstanding] at hparent
    obtain ⟨hkey, e', he', hholds⟩ := copyParentKeys_complete hm₁ hparents hparent
    rw [he] at he'
    cases he'
    exact ⟨hkey, hholds⟩

/-- Where every key has been copied, nothing is left to do. -/
theorem Complete.propagateKeys_same (hm : Complete m) (hcheck : check m = .ok ()) :
    Ends propagateKeys m () m := by
  refine propagateKeys_of_stages hcheck (Ends.forM_same fun name _ => ?_)
    (Ends.forM_same fun name _ => ?_)
  · have hsame : copyInterfaceKeys name m = m := by
      refine copyInterfaceKeys_same fun e he i hi f hf => ?_
      obtain rfl := Model.entity?_name he
      obtain ⟨hkey, hsees⟩ := sees_of_singleKeyField? hf
      exact hm.interfaces he (Model.mem_ownInterfaces.mp hi).2.2 hkey hsees
    show Ends (Pass.change (copyInterfaceKeys name)) m () m
    exact Pass.change_of hsame
  · refine Ends.get_bind_of (Ends.forM_same fun parent hparent => Pass.step_of ?_)
    obtain ⟨e, he, -⟩ := Model.mem_linksOf.mp hparent
    obtain rfl := Model.entity?_name he
    refine copyParentKey_same (hm.parents he hparent).1 fun x hx => ?_
    rw [he] at hx
    cases hx
    exact (hm.parents he hparent).2

end Hierarchy

open Hierarchy (propagateKeys)

/-- Key propagation is complete, conservative and idempotent. When it succeeds on a model with
distinct entity names, every entity owns fields of the names in the primary keys of its
parents, which are not empty, and a key over each; and for every interface that it
implements, directly or not, whose primary key is one visible field, it owns a field of that
name. Entities differ from what they were by hidden references to such fields before and
behind their own, and by keys before their own; nothing else in the model differs. A
second run succeeds and changes nothing. -/
theorem propagateKeys_complete (hnodup : m.entityNames.Nodup) (h : Ends propagateKeys m () m') :
    (∀ e ∈ m'.entities, ∀ parent ∈ e.parents, m'.primaryKeyFields parent ≠ [] ∧
      e.HoldsKey ((m'.primaryKeyFields parent).map (·.name))) ∧
    (∀ e ∈ m'.entities, ∀ i field, TransGen m'.Implements e.name i →
      (m'.primaryKey? i).map (·.fields) = some [field] → m'.Sees i field →
      e.hasField field = true) ∧
    ({ m' with entities := m.entities } = m ∧
      List.Forall₂ (Copies m) m.entities m'.entities) ∧
    Ends propagateKeys m' () m' := by
  have hcopies := Hierarchy.propagateKeys_copies h
  have hcomplete := Hierarchy.propagateKeys_completes h
  have hnodup' := hcopies.nodup (isChange_copies m) hnodup
  have hfound : ∀ {e}, e ∈ m'.entities → m'.entity? e.name = some e := Model.entity?_of_mem hnodup'
  refine ⟨fun e he parent hparent => ?_, fun e he i field hpath hkey hsees => ?_,
    ⟨Hierarchy.propagateKeys_frame h, ?_⟩, ?_⟩
  · exact hcomplete.parents (hfound he) (Model.mem_linksOf.mpr ⟨e, hfound he, hparent⟩)
  · exact hcomplete.interfaces (hfound he) hpath hkey hsees
  · obtain ⟨kept, new, heq, hkept, hnew, -⟩ := hcopies
    obtain rfl := List.map_eq_nil_iff.mp hnew
    rwa [heq, List.append_nil]
  · exact hcomplete.propagateKeys_same (Hierarchy.check_standing
      (hcopies.mono fun _ _ h => h.gains.sameStanding) (Hierarchy.propagateKeys_stages h).1)

/-- An entity that extends two others and is declared before all that stand above it. -/
def fleet : Model :=
  { Model.empty with entities := [
      { Entity.named "Van" with parents := ["Truck", "Asset"] },
      { Entity.named "Truck" with parents := ["Vehicle"] },
      { Entity.named "Asset" with
        fields := [Field.named "num" .int], keys := [⟨["num"], false, none⟩] },
      { Entity.named "Vehicle" with
        implements := ["Coded"]
        fields := [Field.named "id" .int], keys := [⟨["id"], false, none⟩] },
      { Entity.named "Coded" with
        isAbstract := true
        fields := [Field.named "code" (.string 8)], keys := [⟨["code"], false, none⟩] }] }

/-- The key of the interface goes down to the entity without fields, beside that of its other
parent, and a second run changes nothing. -/
theorem fleet_propagated : fleet.entityNames.Nodup ∧ ∃ m', Ends propagateKeys fleet () m' ∧
    m'.entities.map (fun e => (e.name, e.fields.map (·.name), e.keys.map (·.fields))) =
      [("Van", ["code", "num"], [["num"], ["code"]]), ("Truck", ["code"], [["code"]]),
        ("Asset", ["num"], [["num"]]), ("Vehicle", ["code", "id"], [["id"]]),
        ("Coded", ["code"], [["code"]])] ∧
    (∀ e ∈ m'.entities, ∀ parent ∈ e.parents, m'.primaryKeyFields parent ≠ [] ∧
      e.HoldsKey ((m'.primaryKeyFields parent).map (·.name))) ∧
    Ends propagateKeys m' () m' := by
  have hnodup : fleet.entityNames.Nodup := by decide
  have hrun : (propagateKeys.run fleet).1.toBool = true ∧
      (propagateKeys.run fleet).2.entities.map
        (fun e => (e.name, e.fields.map (·.name), e.keys.map (·.fields))) =
      [("Van", ["code", "num"], [["num"], ["code"]]), ("Truck", ["code"], [["code"]]),
        ("Asset", ["num"], [["num"]]), ("Vehicle", ["code", "id"], [["id"]]),
        ("Coded", ["code"], [["code"]])] := by
    decide +kernel
  obtain ⟨hok, hentities⟩ := hrun
  obtain ⟨_, hok⟩ := Except.exists_ok hok
  have hends : Ends propagateKeys fleet () (propagateKeys.run fleet).2 := Prod.ext hok rfl
  obtain ⟨hparents, -, -, hsame⟩ := propagateKeys_complete hnodup hends
  exact ⟨hnodup, _, hends, hentities, hparents, hsame⟩

end EntitySchema
