import EntitySchema.Proofs.ClosedHierarchy
import EntitySchema.Proofs.Completion

/-! Parts of a hierarchy that are closed upwards. What the own fields of all their
entities have, the visible fields of these entities have too, and so have the fields
that the last passes copy. Identity roots that are put above such a part belong to it
from then on. -/

namespace EntitySchema

open Relation (ReflTransGen)
open Model (Evolves)
open Entity (IsChange SameOutline SameStanding isChange_sameOutline isChange_sameStanding)
open Hierarchy (identityName plainIdentity addIdentity copyKeyFieldsOf copyKeyFields discriminator
  propagateDecorators)

variable {m m' : Model} {inside legal : String → Prop} {kind kind' : Field → Prop}
  {a b name : String} {e : Entity} {f : Field} {added : List String}

/-- The names inside are those of entities that extend and implement only such entities,
and whose own fields are of one kind. -/
structure Model.Encloses (m : Model) (inside : String → Prop) (kind : Field → Prop) : Prop where
  found : ∀ {name}, inside name → name ∈ m.entityNames
  links : ∀ e ∈ m.entities, inside e.name → ∀ b ∈ e.parents ++ e.implements, inside b
  fields : ∀ e ∈ m.entities, inside e.name → ∀ f ∈ e.fields, kind f

namespace Model

/-- A closed hierarchy is a closed part of itself. -/
theorem Closed.encloses (hm : m.Closed) (hfields : m.All fun e => ∀ f ∈ e.fields, kind f) :
    m.Encloses (· ∈ m.entityNames) kind :=
  ⟨id, fun e he _ => hm e he, fun e he _ => hfields e he⟩

namespace Encloses

theorem at_name (hm : m.Encloses inside kind) (he : m.entity? name = some e) (hname : inside name) :
    (∀ b ∈ e.parents ++ e.implements, inside b) ∧ ∀ f ∈ e.fields, kind f := by
  rw [← entity?_name he] at hname
  exact ⟨hm.links e (entity?_mem he) hname, hm.fields e (entity?_mem he) hname⟩

/-! ### What is visible -/

theorem follow {links : Entity → List String} (hm : m.Encloses inside kind)
    (hlinks : ∀ e, links e ⊆ e.parents ++ e.implements) (ha : inside a)
    (hpath : ReflTransGen (fun a b => b ∈ m.linksOf links a) a b) : inside b := by
  induction hpath with
  | refl => exact ha
  | tail _ hstep ih =>
    obtain ⟨e, he, hb⟩ := mem_linksOf.mp hstep
    exact (hm.at_name he ih).1 _ (hlinks e hb)

theorem inherits (hm : m.Encloses inside kind) (ha : inside a) (hab : m.Inherits a b) :
    inside b := by
  obtain ⟨c, hac, hcb⟩ := hab
  have hc := hm.follow (fun _ => List.subset_append_left _ _) ha hac
  exact hm.follow (fun _ => List.subset_append_right _ _) hc hcb

theorem lineage (hm : m.Encloses inside kind) (ha : inside a) (he : e ∈ m.lineage a) :
    ∀ f ∈ e.fields, kind f := by
  obtain ⟨he, hinherits⟩ := mem_lineage.mp he
  exact (hm.at_name he (hm.inherits ha hinherits)).2

theorem visible (hm : m.Encloses inside kind) (ha : inside a) (hf : f ∈ m.allFields a) :
    kind f := by
  obtain ⟨e, he, hf⟩ := mem_allFields hf
  exact hm.lineage ha he f hf

/-! ### Changes -/

/-- Entities stay where they are, and the fields inside become fields of a kind. -/
theorem evolves {R : Entity → Entity → Prop} (hR : IsChange R) (hm : m.Encloses inside kind)
    (h : Evolves R added m m')
    (hlinks : ∀ e e', R e e' → e'.parents = e.parents ∧ e'.implements = e.implements)
    (hfields : ∀ e e', R e e' → (∀ f ∈ e.fields, kind f) → ∀ f ∈ e'.fields, kind' f) :
    m'.Encloses inside kind' := by
  have hold : ∀ e' ∈ m'.entities, inside e'.name →
      ∃ e ∈ m.entities, R e e' ∧ inside e.name := by
    intro e' he' hinside
    rcases h.mem he' with ⟨e, he, hsame⟩ | hadded
    · exact ⟨e, he, hsame, hR.name hsame ▸ hinside⟩
    · exact absurd (hm.found hinside) (h.fresh hadded)
  refine ⟨fun hinside => ?_, fun e' he' hinside => ?_, fun e' he' hinside => ?_⟩
  · exact h.entityNames hR ▸ List.mem_append_left _ (hm.found hinside)
  · obtain ⟨e, he, hsame, hinside⟩ := hold e' he' hinside
    rw [(hlinks e e' hsame).1, (hlinks e e' hsame).2]
    exact hm.links e he hinside
  · obtain ⟨e, he, hsame, hinside⟩ := hold e' he' hinside
    exact hfields e e' hsame (hm.fields e he hinside)

/-- References are completed, by which fields stay of their kind. -/
theorem outline (hkind : ∀ f f' : Field, f'.outline = f.outline → kind f → kind f')
    (hm : m.Encloses inside kind) (h : Evolves SameOutline added m m') :
    m'.Encloses inside kind := by
  refine hm.evolves isChange_sameOutline h
    (fun _ _ h => ⟨h.sameStanding.parents, h.sameStanding.implements⟩)
    fun e e' h hfields f' hf' => ?_
  obtain ⟨f, hf, hsame⟩ := List.mem_map.mp (h.1 ▸ List.mem_map_of_mem hf')
  exact hkind f f' hsame.symm (hfields f hf)

/-- One entity changes, and keeps to what is inside if it is. -/
theorem changeEntity {change : Entity → Entity} (hm : m.Encloses inside kind)
    (hname : ∀ e, (change e).name = e.name)
    (hlinks : ∀ e, m.entity? name = some e → inside name →
      ∀ b ∈ (change e).parents ++ (change e).implements, inside b)
    (hfields : ∀ e, m.entity? name = some e → inside name → ∀ f ∈ (change e).fields, kind f) :
    (m.changeEntity name change).Encloses inside kind := by
  refine ⟨fun hinside => (entityNames_changeEntity hname).symm ▸ hm.found hinside,
    fun e' he' hinside => ?_, fun e' he' hinside => ?_⟩
  all_goals rcases exists_of_mem_changeFirst he' with he | ⟨e, he, rfl⟩
  · exact hm.links e' he hinside
  · exact hlinks e he (entity?_name he ▸ hname e ▸ hinside)
  · exact hm.fields e' he hinside
  · exact hfields e he (entity?_name he ▸ hname e ▸ hinside)

/-- An entity joins the model, and is inside under a condition. -/
theorem addEntity {joins : Prop} (hm : m.Encloses inside kind) (h : m.addEntity e = .ok m')
    (hlinks : joins → ∀ b ∈ e.parents ++ e.implements, inside b)
    (hfields : joins → ∀ f ∈ e.fields, kind f) :
    m'.Encloses (fun name => inside name ∨ joins ∧ name = e.name) kind := by
  have hnames := (Evolves.addEntity isChange_sameOutline h).entityNames isChange_sameOutline
  obtain ⟨hnew, rfl⟩ := addEntity_ok h
  have hnew : ∀ x ∈ m.entities, x.name ≠ e.name := by simpa [hasEntity] using hnew
  have hfresh : ¬inside e.name := fun hinside => by
    obtain ⟨x, hx, hname⟩ := List.mem_map.mp (hm.found hinside)
    exact hnew x hx hname
  have hcases : ∀ x ∈ m.entities ++ [e], inside x.name ∨ joins ∧ x.name = e.name →
      x ∈ m.entities ∧ inside x.name ∨ joins ∧ x = e := by
    rintro x hx hinside
    rcases List.mem_append.mp hx with hx | hx
    · exact .inl ⟨hx, hinside.resolve_right fun h => hnew x hx h.2⟩
    · obtain rfl := List.mem_singleton.mp hx
      exact .inr ⟨(hinside.resolve_left hfresh).1, rfl⟩
  refine ⟨fun hinside => ?_, fun x hx hinside b hb => ?_, fun x hx hinside f hf => ?_⟩
  · rw [hnames, List.mem_append, List.mem_singleton]
    exact hinside.imp hm.found (·.2)
  · rcases hcases x hx hinside with ⟨hx, hinside⟩ | ⟨hjoins, rfl⟩
    · exact .inl (hm.links x hx hinside b hb)
    · exact .inl (hlinks hjoins b hb)
  · rcases hcases x hx hinside with ⟨hx, hinside⟩ | ⟨hjoins, rfl⟩
    · exact hm.fields x hx hinside f hf
    · exact hfields hjoins f hf

theorem congr {inside' : String → Prop} (hm : m.Encloses inside kind)
    (h : ∀ name, inside name ↔ inside' name) : m.Encloses inside' kind := by
  rwa [← funext fun name => propext (h name)]

end Encloses

end Model

open Model (Encloses)

/-! ### Identity roots -/

namespace Hierarchy

/-- The names inside, with those of the identity roots above the ones among the roots. -/
def widened (roots : List String) (inside : String → Prop) (name : String) : Prop :=
  inside name ∨ ∃ root ∈ roots, inside root ∧ name = identityName root

/-- An identity root is inside when its root is; it owns what is visible on that. -/
theorem addIdentity_encloses (hm : m.Encloses inside kind) (hname : name ∈ m.entityNames)
    (hkind : inside name → ∀ options, kind { discriminator options with readonly := false })
    (h : addIdentity name m = .ok m') :
    m'.entityNames = m.entityNames ++ [identityName name] ∧ identityName name ∉ m.entityNames ∧
      m'.Encloses (widened [name] inside) kind := by
  obtain ⟨root, hroot⟩ := Model.mem_entityNames.mp hname
  obtain rfl := Model.entity?_name hroot
  obtain ⟨identity, m₁, hidentity, hadd, rfl⟩ := addIdentity_steps h hroot
  obtain rfl := identityOf_ok hidentity
  have hadded := Evolves.addEntity isChange_sameOutline hadd
  have hfields : inside root.name → ∀ f ∈ { discriminator (members m root.name) with
      readonly := false } :: m.primaryKeyFields root.name, kind f := by
    intro hinside f hf
    rcases List.mem_cons.mp hf with rfl | hf
    · exact hkind hinside _
    · exact hm.visible hinside (Model.mem_primaryKeyFields hf).2
  have hm₁ := hm.addEntity hadd (by simp [plainIdentity, Entity.named]) hfields
  refine ⟨?_, ?_, Encloses.congr (hm₁.changeEntity (fun _ => rfl) (fun e he hinside b hb => ?_)
    fun e he hinside => ?_) fun above => by simp [widened, plainIdentity, Entity.named]⟩
  · exact (Model.entityNames_changeEntity fun _ => by rfl).trans
      (hadded.entityNames isChange_sameOutline)
  · exact hadded.fresh (List.mem_singleton_self _)
  · rcases List.mem_append.mp hb with hb | hb
    · exact .inr ⟨hinside.elim id (·.1), List.mem_singleton.mp hb⟩
    · exact (hm₁.at_name he hinside).1 b (List.mem_append_right _ hb)
  · exact (hm₁.at_name he hinside).2

theorem addIdentityEach_encloses {u : Unit} : ∀ {names : List String} {m : Model}
    {inside : String → Prop}, (∀ name ∈ names, name ∈ m.entityNames) →
    (∀ name ∈ names, inside name →
      ∀ options, kind { discriminator options with readonly := false }) →
    m.Encloses inside kind → Ends (names.forM fun name => Pass.step (addIdentity name)) m u m' →
    m'.entityNames = m.entityNames ++ names.map identityName ∧
      m'.Encloses (widened names inside) kind
  | [], m, inside, _, _, hm, h => by
    cases h
    exact ⟨by simp, hm.congr fun _ => by simp [widened]⟩
  | name :: rest, m, inside, hnames, hkind, hm, h => by
    obtain ⟨m₁, hstep, h⟩ := Pass.step_bind h
    obtain ⟨hname, hrest⟩ := List.forall_mem_cons.mp hnames
    obtain ⟨hadded, hfresh, hm₁⟩ :=
      addIdentity_encloses hm hname (hkind name List.mem_cons_self) hstep
    -- the roots still to come are old names, so the new one is none of them
    have hsame : ∀ root ∈ rest, widened [name] inside root ↔ inside root := fun root hroot => by
      refine or_iff_left fun ⟨_, hmem, _, heq⟩ => hfresh ?_
      rw [← List.mem_singleton.mp hmem, ← heq]
      exact hrest root hroot
    obtain ⟨hadded', hm'⟩ := addIdentityEach_encloses (u := u)
      (fun root hroot => hadded ▸ List.mem_append_left _ (hrest root hroot))
      (fun root hroot hinside => hkind root (List.mem_cons_of_mem _ hroot)
        ((hsame root hroot).mp hinside)) hm₁ h
    refine ⟨by simp [hadded', hadded], hm'.congr fun above => ?_⟩
    have hrest : (∃ root ∈ rest, widened [name] inside root ∧ above = identityName root) ↔
        ∃ root ∈ rest, inside root ∧ above = identityName root :=
      exists_congr fun root => and_congr_right fun hroot => and_congr_left fun _ => hsame root hroot
    rw [widened, hrest]
    simp [widened, or_assoc]

/-! ### Key fields -/

theorem copyKeyFieldsOf_encloses (hm : m.Encloses inside kind)
    (hkind : ∀ f, kind f → kind f.constraintCopy) (h : copyKeyFieldsOf name m = .ok m') :
    m'.entityNames = m.entityNames ∧ m'.Encloses inside kind := by
  rcases copyKeyFieldsOf_ok h with ⟨-, rfl⟩ | ⟨e, copies, he, hcopies, rfl⟩
  · exact ⟨rfl, hm⟩
  · refine ⟨Model.entityNames_changeEntity fun _ => rfl, hm.changeEntity (fun _ => rfl)
      (fun x hx hinside => (hm.at_name hx hinside).1) fun x hx hinside f hf => ?_⟩
    rcases List.mem_append.mp hf with hf | hf
    · exact (hm.at_name hx hinside).2 f hf
    · obtain ⟨g, hg, rfl⟩ := keyFieldCopies_ok hcopies f hf
      exact hkind g (hm.visible (Model.entity?_name he ▸ hinside) hg)

theorem copyKeyFields_encloses {u : Unit} (hm : m.Encloses inside kind)
    (hkind : ∀ f, kind f → kind f.constraintCopy) (h : Ends copyKeyFields m u m') :
    m'.entityNames = m.entityNames ∧ m'.Encloses inside kind :=
  h.get_bind.forM_keeps (fun m' => m'.entityNames = m.entityNames ∧ m'.Encloses inside kind)
    (fun _ _ _ _ hstep ⟨hnames, hm⟩ =>
      (copyKeyFieldsOf_encloses hm hkind (Pass.step_ends hstep)).imp_left (·.trans hnames))
    ⟨rfl, hm⟩

end Hierarchy

/-! ### Decorators -/

namespace Entity

/-- The same entity but for its decorator. -/
def Redecorates (e e' : Entity) : Prop :=
  { e' with decorator := none } = { e with decorator := none }

theorem isChange_redecorates : IsChange Redecorates where
  refl _ := rfl
  trans h₁ h₂ := Eq.trans h₂ h₁
  name h := (congrArg Entity.name h :)

theorem Redecorates.sameStanding {e e' : Entity} (h : Redecorates e e') : SameStanding e e' :=
  ⟨isChange_redecorates.name h, (congrArg Entity.isAbstract h :), (congrArg Entity.parents h :),
    (congrArg Entity.implements h :)⟩

theorem Redecorates.fields {e e' : Entity} (h : Redecorates e e') : e'.fields = e.fields :=
  (congrArg Entity.fields h :)

end Entity

theorem Hierarchy.propagateDecorators_redecorates (m : Model) :
    Evolves Entity.Redecorates [] m (propagateDecorators m) :=
  List.foldlRecOn _ _ (.refl Entity.isChange_redecorates m) fun _ hm _ _ =>
    hm.trans_nil Entity.isChange_redecorates
      (.changeEntity Entity.isChange_redecorates fun _ _ => rfl)

/-! ### All of them -/

namespace Pass

open Hierarchy (widened)

variable {options : Options} {u : Unit}

/-- The roots that get identity roots. -/
def identified (options : Options) (m : Model) : List String :=
  if options.mapping = .classPerTable then m.entityNames.filter m.isRoot else []

/-- Of names that a model encloses, those are still enclosed in the end, and with them
the identity roots above them; and no other entities are added. -/
theorem completeTables_encloses (hm : m.Encloses inside kind)
    (houtline : ∀ f f' : Field, f'.outline = f.outline → kind f → kind f')
    (hcopy : ∀ f, kind f → kind f.constraintCopy)
    (hroot : ∀ root, m.isRoot root = true → inside root → ∀ options,
      kind { discriminator options with readonly := false })
    (h : Ends (completeTables options) m u m') :
    m'.entityNames = m.entityNames ++ (identified options m).map identityName ∧
      m'.Encloses (widened (identified options m) inside) kind := by
  obtain ⟨m₁, hidentities, hcopies, -⟩ := completeTables_steps h
  have hlabels : Evolves SameOutline [] m (Reference.propagateLabels m) :=
    (Reference.propagateLabels_bearing m).mono fun _ _ h => h.sameOutline
  have hdecorators := Hierarchy.propagateDecorators_redecorates (Reference.propagateLabels m)
  have hstanding : Evolves SameStanding [] m
      (propagateDecorators (Reference.propagateLabels m)) :=
    (hlabels.mono fun _ _ h => h.sameStanding).trans_nil isChange_sameStanding
      (hdecorators.mono fun _ _ h => h.sameStanding)
  have hnames := hstanding.entityNames isChange_sameStanding
  have hm := (hm.outline houtline hlabels).evolves Entity.isChange_redecorates hdecorators
    (fun _ _ h => ⟨h.sameStanding.parents, h.sameStanding.implements⟩)
    fun e e' h (hfields : ∀ f ∈ e.fields, kind f) => by rwa [h.fields]
  obtain ⟨hadded, hm₁⟩ : m₁.entityNames = m.entityNames ++ (identified options m).map identityName ∧
      m₁.Encloses (widened (identified options m) inside) kind := by
    unfold identified
    rcases hidentities with ⟨hmapping, hidentities⟩ | ⟨hmapping, rfl⟩
    · have hroots := hidentities.get_bind
      have hsame : (propagateDecorators (Reference.propagateLabels m)).isRoot = m.isRoot :=
        funext fun _ => Model.isRoot_standing hstanding
      rw [List.append_nil] at hnames
      rw [hsame] at hroots
      rw [if_pos hmapping, ← hnames]
      refine Hierarchy.addIdentityEach_encloses (fun name hname => ?_)
        (fun name hname hinside => ?_) hm hroots
      · exact List.mem_of_mem_filter hname
      · exact hroot name (List.mem_filter.mp hname).2 hinside
    · rw [if_neg hmapping]
      exact ⟨by simp [hnames], hm.congr fun _ => by simp [widened]⟩
  obtain ⟨hcopied, hm'⟩ := Hierarchy.copyKeyFields_encloses hm₁ hcopy hcopies
  exact ⟨hcopied.trans hadded, hm'⟩

end Pass

end EntitySchema
