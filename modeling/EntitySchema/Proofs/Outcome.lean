import EntitySchema.Proofs.KeyIntegrity
import EntitySchema.Proofs.OwnFields

/-! What completing a model makes of its entities. Once their fields are in lower case,
the passes that follow give them copies of the fields that their keys name, and roots a
parent. Every other entity that is there in the end was added by these passes, and
stands apart. -/

namespace EntitySchema

open Model (Evolves)
open Entity (Collects IsChange Lowers Redecorates SameOutline isChange_sameOutline
  isChange_sameStanding)
open FieldCase (lowerField)
open Hierarchy (addIdentity copyKeyFieldsOf discriminatorName identityOf propagateDecorators)
open Pass (identified)

variable {m m' m'' : Model} {options : Options} {roots : List String} {name : String}
  {e e' e₁ e₂ : Entity} {f : Field}

/-! ### Passes that only add -/

namespace Entity

/-- The entity keeps what it has, and gets copies of fields that its keys name; only a root
may get parents. -/
structure Fills (roots : List String) (e e' : Entity) : Prop where
  name : e'.name = e.name
  isAbstract : e'.isAbstract = e.isAbstract
  parents : e.name ∉ roots → e'.parents = e.parents
  implements : e'.implements = e.implements
  keys : e'.keys = e.keys
  indices : e'.indices = e.indices
  fields : ∀ f' ∈ e'.fields, (∃ f ∈ e.fields, f'.outline = f.outline) ∨
    f'.origin = .constraintCopy ∧ e'.InKey f'.name
  kept : ∀ f ∈ e.fields, ∃ f' ∈ e'.fields, f'.outline = f.outline

theorem isChange_fills (roots : List String) : IsChange (Fills roots) where
  refl e := {
    name := rfl
    isAbstract := rfl
    parents := fun _ => rfl
    implements := rfl
    keys := rfl
    indices := rfl
    fields := fun f hf => .inl ⟨f, hf, rfl⟩
    kept := fun f hf => ⟨f, hf, rfl⟩ }
  trans := by
    intro e₁ e₂ e₃ h₁ h₂
    refine {
      name := h₂.name.trans h₁.name
      isAbstract := h₂.isAbstract.trans h₁.isAbstract
      parents := fun hname => (h₂.parents (h₁.name ▸ hname)).trans (h₁.parents hname)
      implements := h₂.implements.trans h₁.implements
      keys := h₂.keys.trans h₁.keys
      indices := h₂.indices.trans h₁.indices
      fields := fun f₃ hf₃ => ?_
      kept := fun f₁ hf₁ => ?_ }
    · rcases h₂.fields f₃ hf₃ with ⟨f₂, hf₂, hout⟩ | hcopied
      · refine (h₁.fields f₂ hf₂).imp (fun ⟨f₁, hf₁, hout'⟩ => ⟨f₁, hf₁, hout.trans hout'⟩)
          fun ⟨horigin, hkey⟩ => ?_
        unfold InKey at hkey ⊢
        rw [Field.origin_of_outline hout, Field.name_of_outline hout, h₂.keys]
        exact ⟨horigin, hkey⟩
      · exact .inr hcopied
    · obtain ⟨f₂, hf₂, hout⟩ := h₁.kept f₁ hf₁
      obtain ⟨f₃, hf₃, hout'⟩ := h₂.kept f₂ hf₂
      exact ⟨f₃, hf₃, hout'.trans hout⟩
  name h := h.name

theorem SameOutline.fills (h : SameOutline e e') : Fills roots e e' where
  name := h.sameStanding.name
  isAbstract := h.sameStanding.isAbstract
  parents _ := h.sameStanding.parents
  implements := h.sameStanding.implements
  keys := h.keys
  indices := h.indices
  fields _ hf := .inl ((h.symm.grows.field hf).imp fun _ => And.imp_right Eq.symm)
  kept _ hf := h.grows.field hf

theorem Redecorates.fills (h : Redecorates e e') : Fills roots e e' where
  name := h.sameStanding.name
  isAbstract := h.sameStanding.isAbstract
  parents _ := h.sameStanding.parents
  implements := h.sameStanding.implements
  keys := (congrArg Entity.keys h :)
  indices := (congrArg Entity.indices h :)
  fields f hf := .inl ⟨f, h.fields ▸ hf, rfl⟩
  kept f hf := ⟨f, h.fields.symm ▸ hf, rfl⟩

/-- An entity without ties to others, and without indices. -/
structure Apart (e : Entity) : Prop where
  parents : e.parents = []
  implements : e.implements = []
  indices : e.indices = []

theorem Fills.apart (h : Fills roots e e') (he : e.Apart) (hname : e.name ∉ roots) : e'.Apart where
  parents := (h.parents hname).trans he.parents
  implements := h.implements.trans he.implements
  indices := h.indices.trans he.indices

end Entity

open Entity (Apart Fills isChange_fills)

/-- The entities of the model are filled, and those that were added stand apart. -/
structure Model.Completes (roots : List String) (m m' : Model) : Prop where
  evolves : ∃ added, Evolves (Fills roots) added m m'
  fresh : ∀ e' ∈ m'.entities, e'.name ∈ m.entityNames ∨ e'.Apart

open Model (Completes)

namespace Model.Completes

theorem of_evolves (h : Evolves (Fills roots) [] m m') : Completes roots m m' := by
  refine ⟨⟨[], h⟩, fun e' he' => .inl ?_⟩
  obtain ⟨e, he, hfills⟩ := (h.mem he').resolve_right (by simp)
  exact hfills.name ▸ List.mem_map_of_mem he

/-- No entity that is added is among the roots. -/
theorem trans (hroots : roots ⊆ m.entityNames) (h : Completes roots m m')
    (h' : Completes roots m' m'') : Completes roots m m'' := by
  obtain ⟨added, hevolves⟩ := h.evolves
  obtain ⟨added', hevolves'⟩ := h'.evolves
  refine ⟨⟨_, hevolves.trans (isChange_fills roots) hevolves'⟩, fun e'' he'' => ?_⟩
  rcases hevolves'.mem he'' with ⟨e', he', hfills⟩ | hadded
  · rw [hfills.name]
    by_cases hold : e'.name ∈ m.entityNames
    · exact .inl hold
    · exact .inr (hfills.apart ((h.fresh e' he').resolve_left hold) fun hroot =>
        hold (hroots hroot))
  · exact .inr ((h'.fresh e'' he'').resolve_left (hevolves'.fresh hadded))

end Model.Completes

namespace Hierarchy

/-! ### Identity roots -/

theorem addIdentity_completes {root : Entity} (hname : name ∈ roots)
    (hfound : m.entity? name = some root) (h : addIdentity name m = .ok m') :
    Completes roots m m' := by
  obtain ⟨identity, m₁, hidentity, hadd, rfl⟩ := addIdentity_steps h hfound
  obtain rfl := identityOf_ok hidentity
  refine ⟨⟨_, (Evolves.addEntity (isChange_fills roots) hadd).trans_nil (isChange_fills roots)
    (.changeEntity (isChange_fills roots) fun e he => ?_)⟩, fun e' he' => ?_⟩
  · exact { (isChange_fills roots).refl e with
      parents := fun hnot => absurd (Model.entity?_name he ▸ hname) hnot }
  · rcases exists_of_mem_changeFirst he' with he | ⟨e, he, rfl⟩
    · rw [(Model.addEntity_ok hadd).2] at he
      rcases List.mem_append.mp he with he | he
      · exact .inl (List.mem_map_of_mem he)
      · obtain rfl := List.mem_singleton.mp he
        exact .inr ⟨rfl, rfl, rfl⟩
    · refine .inl ?_
      show e.name ∈ m.entityNames
      rw [Model.entity?_name he]
      exact Model.mem_entityNames.mpr ⟨root, hfound⟩

theorem addIdentities_completes {u : Unit} (hroots : roots ⊆ m.entityNames)
    (hall : ∀ name ∈ m.entityNames, m.isRoot name = true → name ∈ roots)
    (h : Ends addIdentities m u m') : Completes roots m m' := by
  refine h.get_bind.forM_keeps (fun m' => Completes roots m m')
    (fun name hname m₁ m₂ hstep hm₁ => ?_) (.of_evolves (.refl (isChange_fills roots) m))
  obtain ⟨hmem, hroot⟩ := List.mem_filter.mp hname
  obtain ⟨e, he⟩ := Model.mem_entityNames.mp hmem
  obtain ⟨_, hevolves⟩ := hm₁.evolves
  obtain ⟨e₁, he₁, -⟩ := hevolves.entity? (isChange_fills roots) he
  exact hm₁.trans hroots (addIdentity_completes (hall name hmem hroot) he₁ (Pass.step_ends hstep))

/-! ### Key fields -/

theorem keyFieldCopies_named {copies : List Field} (h : keyFieldCopies m e = .ok copies) :
    ∀ f ∈ copies, f.origin = .constraintCopy ∧ e.InKey f.name := by
  refine Except.foldlM_ok
    (fun copies : List Field => ∀ f ∈ copies, f.origin = .constraintCopy ∧ e.InKey f.name)
    (fun name hname copies copies' hcopy hcopies f hf => ?_) h (by simp)
  rcases copyKeyField_ok hcopy with ⟨-, rfl⟩ | ⟨-, g, -, hname', rfl⟩
  · exact hcopies f hf
  · rcases List.mem_append.mp hf with hf | hf
    · exact hcopies f hf
    · obtain rfl := List.mem_singleton.mp hf
      obtain ⟨key, hkey, hfield⟩ := List.mem_flatMap.mp hname
      exact ⟨rfl, key, hkey, by rwa [← hname'] at hfield⟩

theorem copyKeyFieldsOf_fills (h : copyKeyFieldsOf name m = .ok m') :
    Evolves (Fills roots) [] m m' := by
  rcases copyKeyFieldsOf_ok h with ⟨-, rfl⟩ | ⟨e, copies, he, hcopies, rfl⟩
  · exact .refl (isChange_fills roots) m'
  · exact .changeEntity_at (isChange_fills roots) he { (isChange_fills roots).refl e with
      fields := fun f hf => (List.mem_append.mp hf).imp (fun hf => ⟨f, hf, rfl⟩)
        (keyFieldCopies_named hcopies f)
      kept := fun f hf => ⟨f, List.mem_append_left _ hf, rfl⟩ }

theorem copyKeyFields_fills {u : Unit} (h : Ends copyKeyFields m u m') :
    Evolves (Fills roots) [] m m' :=
  .forM (isChange_fills roots) (fun _ _ _ _ hstep => copyKeyFieldsOf_fills (Pass.step_ends hstep))
    h.get_bind

end Hierarchy

/-! ### Links and tables -/

theorem Link.MadeAs.alone {j : Entity} (h : MadeAs name j) : j.Apart := by
  obtain ⟨hparents, himplements⟩ := h.apart
  obtain ⟨_, _, _, _, _, _, _, hmake, hsame⟩ := h
  obtain ⟨columns, -, rfl⟩ := make_eq hmake
  exact ⟨hparents, himplements, (congrArg Entity.indices hsame.2 :)⟩

namespace Pass

/-- The entities of links stand apart, and nobody extends them. -/
theorem completeLinks_completes {dialect : Dialect} (hm : m.Ordered)
    (h : Ends (completeLinks dialect) m () m') : Completes (identified options m') m m' ∧
      identified options m' ⊆ m.entityNames := by
  obtain ⟨made, hlinked, hroots, hmade⟩ := completeLinks_made hm h
  refine ⟨⟨⟨made, hlinked.mono fun _ _ => SameOutline.fills⟩, fun e' he' => ?_⟩,
    fun root hroot => ?_⟩
  · rcases hlinked.mem he' with ⟨e, he, hsame⟩ | hnew
    · exact .inl (isChange_sameOutline.name hsame ▸ List.mem_map_of_mem he)
    · obtain ⟨e, he, ⟨j, hj, hsame⟩, -⟩ := hmade e'.name hnew
      rw [Model.entity?_of_mem (hlinked.nodup isChange_sameOutline hm.names) he'] at he
      cases he
      have hfills : Fills [] j e' := hsame.fills
      exact .inr (hfills.apart hj.alone List.not_mem_nil)
  · unfold identified at hroot
    split at hroot
    · exact hroots root (List.mem_filter.mp hroot).2
    · cases hroot

theorem completeTables_completes {u : Unit} (h : Ends (completeTables options) m u m') :
    Completes (identified options m) m m' := by
  have hfills := isChange_fills (identified options m)
  obtain ⟨m₁, hidentities, hcopies, -⟩ := completeTables_steps h
  have hlabels := Reference.propagateLabels_bearing m
  have hdecorators := Hierarchy.propagateDecorators_redecorates (Reference.propagateLabels m)
  have hdecorated : Evolves (Fills (identified options m)) [] m _ :=
    (hlabels.mono fun _ _ h => h.sameOutline.fills).trans_nil hfills
      (hdecorators.mono fun _ _ => Redecorates.fills)
  have hnames : _ = m.entityNames ++ [] := hdecorated.entityNames hfills
  rw [List.append_nil] at hnames
  have hsubset : identified options m ⊆ m.entityNames := by
    unfold identified
    split
    · exact fun _ => List.mem_of_mem_filter
    · exact List.nil_subset _
  refine ((Completes.of_evolves hdecorated).trans hsubset ?_).trans hsubset
    (.of_evolves (Hierarchy.copyKeyFields_fills hcopies))
  rcases hidentities with ⟨hmapping, hidentities⟩ | ⟨-, rfl⟩
  · refine Hierarchy.addIdentities_completes (hnames ▸ hsubset) (fun name hname hroot => ?_)
      hidentities
    have hstanding := (hlabels.mono fun _ _ h => h.sameOutline.sameStanding).trans_nil
      isChange_sameStanding (hdecorators.mono fun _ _ h => h.sameStanding)
    rw [Model.isRoot_standing hstanding] at hroot
    unfold identified
    rw [if_pos hmapping]
    exact List.mem_filter.mpr ⟨hnames ▸ hname, hroot⟩
  · exact .of_evolves (.refl hfills _)

end Pass

/-! ### All of them -/

/-- An index of the entity may name the field in the end without the entity having it. -/
def Loses (options : Options) (e : Entity) (f : Field) : Prop :=
  options.mapping = .subclassPerTable ∧ e.parents ≠ [] ∧ f.name = discriminatorName ∨ MovesAway e f

namespace Entity

/-- What completing a model makes of an entity: its fields are gathered and put in lower
case, or copied under the names that its keys have. -/
structure Becomes (options : Options) (m : Model) (e e' : Entity) : Prop where
  name : e'.name = e.name
  isAbstract : e'.isAbstract = e.isAbstract
  parents : options.mapping ≠ .classPerTable → e'.parents = e.parents
  fields : ∀ f' ∈ e'.fields,
    (∃ f, Gathered options m e f ∧ f'.outline = (lowerField f).outline) ∨
      (f'.origin = .inheritedKey ∨ f'.origin = .constraintCopy) ∧ e'.InKey f'.name
  kept : ∀ f ∈ e.fields, Departs options m e f ∨
    ∃ f' ∈ e'.fields, f'.outline = (lowerField f).outline
  indices : ∀ index ∈ e'.indices, ∀ name ∈ index.fields, e'.hasField name = true ∨
    ∃ f ∈ e.fields, f.name = name ∧ Loses options e f
  keyed : ∀ field, e'.InKey field → ∃ name, m.Keyed e.name name ∧
    Text.lower name = Text.lower field
  root : options.mapping = .subclassPerTable → m.isRoot e.name = true →
    ∃ f ∈ e'.fields, f.name = discriminatorName ∧ f.origin = .discriminator

end Entity

open Entity (Becomes)

theorem FieldCase.follow_own {fields : List Field} (hf : f ∈ fields) :
    follow fields f.name = Text.lower f.name := by
  unfold follow
  split
  · rfl
  · next hmixed =>
    rw [mem_mixed] at hmixed
    by_contra hne
    exact hmixed ⟨⟨f, hf, rfl⟩, hne⟩

theorem FieldCase.follow_other {fields : List Field} (h : ∀ f ∈ fields, f.name ≠ name) :
    follow fields name = name := by
  unfold follow
  rw [if_neg]
  rw [mem_mixed]
  rintro ⟨⟨f, hf, rfl⟩, -⟩
  exact h f hf rfl

namespace Entity

theorem Lowers.field {e₃ : Entity} (h : Lowers e₂ e₃) (hf : f ∈ e₂.fields) :
    ∃ f' ∈ e₃.fields, f'.outline = (lowerField f).outline :=
  List.mem_map.mp (h.fields.symm ▸ List.mem_map_of_mem hf)

/-- An index keeps to own fields as long as these stay. -/
theorem Collects.index_owned {index : Index} (hcollects : Collects options m e e₂)
    (hlowers : Lowers e₂ e') (howns : e.OwnsIndices) (hindex : index ∈ e'.indices)
    (hname : name ∈ index.fields) :
    e'.hasField name = true ∨ ∃ f ∈ e.fields, f.name = name ∧ Loses options e f := by
  rw [hlowers.indices, hcollects.indices] at hindex
  obtain ⟨declared, hdeclared, rfl⟩ := List.mem_map.mp hindex
  obtain ⟨declaredName, hmem, rfl⟩ := List.mem_map.mp hname
  by_cases hstays : ∃ f ∈ e₂.fields, f.name = declaredName
  · obtain ⟨f, hf, rfl⟩ := hstays
    obtain ⟨f', hf', hout⟩ := hlowers.field hf
    rw [FieldCase.follow_own hf, hasField_iff]
    exact .inl (List.mem_map.mpr ⟨f', hf', Field.name_of_outline hout⟩)
  · push Not at hstays
    rw [FieldCase.follow_other hstays]
    obtain ⟨f, hf, rfl⟩ := List.mem_map.mp (hasField_iff.mp (howns declared hdeclared _ hmem))
    refine .inr ⟨f, hf, rfl, ?_⟩
    rcases hcollects.kept f hf with ⟨f', hf', hout⟩ | ⟨hmapping, hin, htype⟩ | hmoves
    · exact absurd (Field.name_of_outline hout) (hstays f' hf')
    · rcases hin with hroot | hparents
      · obtain ⟨g, hg, hgname, -⟩ := hcollects.root hmapping hroot
        exact absurd (hgname.trans htype.symm) (hstays g hg)
      · exact .inl ⟨hmapping, hparents, htype⟩
    · exact .inr hmoves

theorem Collects.becomes (hcollects : Collects options m e e₂) (hlowers : Lowers e₂ e')
    (howns : e.OwnsIndices) : Becomes options m e e' where
  name := hlowers.name.trans hcollects.name
  isAbstract := hlowers.isAbstract.trans hcollects.isAbstract
  parents _ := hlowers.parents.trans hcollects.parents
  fields f' hf' := by
    obtain ⟨f, hf, hout⟩ := List.mem_map.mp (hlowers.fields ▸ List.mem_map_of_mem hf')
    refine (hcollects.fields f hf).imp (fun ⟨g, hg, hsame⟩ => ?_) fun ⟨horigin, hkey⟩ => ?_
    · exact ⟨g, hg, hout.symm.trans (outline_lowerField hsame)⟩
    · obtain ⟨key, hkey, hmem⟩ := hkey
      refine ⟨.inl ((Field.origin_of_outline hout).symm.trans horigin), ?_⟩
      refine ⟨_, hlowers.keys ▸ List.mem_map_of_mem hkey, ?_⟩
      rw [← Field.name_of_outline hout]
      exact List.mem_map.mpr ⟨f.name, hmem, FieldCase.follow_own hf⟩
  kept f hf := (hcollects.kept f hf).symm.imp_right fun ⟨f₂, hf₂, hsame⟩ => by
    obtain ⟨f', hf', hout⟩ := hlowers.field hf₂
    exact ⟨f', hf', hout.trans (outline_lowerField hsame)⟩
  indices _ hindex _ hname := hcollects.index_owned hlowers howns hindex hname
  keyed field hkey := by
    obtain ⟨key, hkey, hfield⟩ := hkey
    rw [hlowers.keys] at hkey
    obtain ⟨key₂, hkey₂, rfl⟩ := List.mem_map.mp hkey
    obtain ⟨name, hname, rfl⟩ := List.mem_map.mp hfield
    exact ⟨name, hcollects.keyed name ⟨key₂, hkey₂, hname⟩, (FieldCase.lower_follow _ name).symm⟩
  root hmapping hroot := by
    obtain ⟨f, hf, hname, horigin⟩ := hcollects.root hmapping hroot
    obtain ⟨f', hf', hout⟩ := hlowers.field hf
    have hlower : (lowerField f).name = discriminatorName := by
      unfold lowerField
      rw [hname, Hierarchy.lower_discriminatorName]
    exact ⟨f', hf', (Field.name_of_outline hout).trans hlower,
      (Field.origin_of_outline hout).trans horigin⟩

theorem Fills.hasField (h : Fills roots e e') (hname : e.hasField name = true) :
    e'.hasField name = true := by
  obtain ⟨f, hf, rfl⟩ := List.mem_map.mp (hasField_iff.mp hname)
  obtain ⟨f', hf', hout⟩ := h.kept f hf
  exact hasField_iff.mpr (List.mem_map.mpr ⟨f', hf', Field.name_of_outline hout⟩)

theorem Becomes.fills (h : Becomes options m e e₂) (hfills : Fills roots e₂ e')
    (hroots : options.mapping ≠ .classPerTable → roots = []) : Becomes options m e e' where
  name := hfills.name.trans h.name
  isAbstract := hfills.isAbstract.trans h.isAbstract
  parents hmapping := (hfills.parents (by simp [hroots hmapping])).trans (h.parents hmapping)
  fields f' hf' := by
    rcases hfills.fields f' hf' with ⟨f₂, hf₂, hout⟩ | ⟨horigin, hkey⟩
    · refine (h.fields f₂ hf₂).imp (fun ⟨f, hf, hsame⟩ => ⟨f, hf, hout.trans hsame⟩) ?_
      unfold InKey
      rw [Field.origin_of_outline hout, Field.name_of_outline hout, hfills.keys]
      exact id
    · exact .inr ⟨.inr horigin, hkey⟩
  kept f hf := (h.kept f hf).imp_right fun ⟨f₂, hf₂, hsame⟩ => by
    obtain ⟨f', hf', hout⟩ := hfills.kept f₂ hf₂
    exact ⟨f', hf', hout.trans hsame⟩
  indices index hindex name hname :=
    (h.indices index (hfills.indices ▸ hindex) name hname).imp_left hfills.hasField
  keyed field hkey := by
    unfold InKey at hkey
    rw [hfills.keys] at hkey
    exact h.keyed field hkey
  root hmapping hroot := by
    obtain ⟨f, hf, hname, horigin⟩ := h.root hmapping hroot
    obtain ⟨f', hf', hout⟩ := hfills.kept f hf
    exact ⟨f', hf', (Field.name_of_outline hout).trans hname,
      (Field.origin_of_outline hout).trans horigin⟩

end Entity

namespace Pass

variable {warnings : List Warning}

theorem completeReferences_becomes {m₁ m₂ : Model} (hm : m.AsRead)
    (hnames : Ends (completeNames options.dialect) m () m₁)
    (hkeys : Ends (completeKeys options) m₁ warnings m₂)
    (hreferences : Ends completeReferences m₂ () m') (he : m.entity? name = some e) :
    ∃ e', m'.entity? name = some e' ∧ Becomes options m e e' := by
  obtain ⟨e₂, he₂, hcollects⟩ := declared_collects hnames hkeys hm.distinct he
  obtain ⟨e', he', hlowers⟩ := completeReferences_entity? hreferences he₂
  exact ⟨e', he', hcollects.becomes hlowers (hm.entities e (Model.entity?_mem he)).ownsIndices⟩

/-- Every entity that is declared is there in the end as what it has become, and every other
stands apart. -/
structure Outcome (options : Options) (m m' : Model) : Prop where
  becomes : ∀ e ∈ m.entities, ∃ e', m'.entity? e.name = some e' ∧ Becomes options m e e'
  fresh : ∀ e' ∈ m'.entities, (∃ e ∈ m.entities, Becomes options m e e') ∨
    e'.name ∉ m.entityNames ∧ e'.Apart

theorem complete_outcome (hm : m.AsRead) (h : Ends (complete options) m warnings m') :
    Outcome options m m' := by
  have hnodup := (complete_sound hm.sound h).1.names
  obtain ⟨m₁, m₂, m₃, m₄, hnames, hkeys, hreferences, hlinks, htables⟩ := complete_steps h
  have hordered := completeReferences_ordered hm.distinct hnames hkeys hreferences
  have hkept := (complete_standing hm.names hnames hkeys hreferences).entityNames
    isChange_sameStanding
  rw [List.append_nil] at hkept
  obtain ⟨hlinked, hroots⟩ := completeLinks_completes hordered hlinks
  have hcompletes := hlinked.trans hroots (completeTables_completes htables)
  have hbecomes : ∀ e ∈ m.entities, ∃ e', m'.entity? e.name = some e' ∧ Becomes options m e e' := by
    intro e he
    obtain ⟨e₃, he₃, hbecomes⟩ := completeReferences_becomes hm hnames hkeys hreferences
      (Model.entity?_of_mem hm.names he)
    obtain ⟨_, hevolves⟩ := hcompletes.evolves
    obtain ⟨e', he', hfills⟩ := hevolves.entity? (isChange_fills _) he₃
    exact ⟨e', he', hbecomes.fills hfills fun hmapping => if_neg hmapping⟩
  refine ⟨hbecomes, fun e' he' => ?_⟩
  by_cases hold : e'.name ∈ m.entityNames
  · obtain ⟨e, he, hname⟩ := List.mem_map.mp hold
    obtain ⟨found, hfound, hbecame⟩ := hbecomes e he
    rw [hname, Model.entity?_of_mem hnodup he'] at hfound
    cases hfound
    exact .inl ⟨e, he, hbecame⟩
  · exact .inr ⟨hold, (hcompletes.fresh e' he').resolve_left (hkept ▸ hold)⟩

end Pass

/-! ### Indices of compiled models -/

/-- After a compilation, an index names own fields of its entity, and declared fields that
the entity has lost: to a discriminator, or as an interface. -/
theorem compiled_index_owned_or_lost {library : Screens.Library} {schemas : List String}
    {screens : Option String} {c : Compiled}
    (h : Compilation.compile options library schemas screens = .ok c) :
    ∃ m, Compilation.declared options schemas = .ok m ∧
      ∀ e' ∈ c.model.entities, ∀ index ∈ e'.indices, ∀ name ∈ index.fields,
        e'.hasField name = true ∨ ∃ e ∈ m.entities, e.name = e'.name ∧
          ∃ f ∈ e.fields, f.name = name ∧ Loses options e f := by
  obtain ⟨m, m', warnings, hdeclared, hcomplete, heq, -⟩ := Compilation.compile_declared h
  refine ⟨m, hdeclared, fun e' he' index hindex name hname => ?_⟩
  have houtcome := Pass.complete_outcome (Compilation.declared_asRead hdeclared) hcomplete
  rcases houtcome.fresh e' (heq ▸ he') with ⟨e, he, hbecomes⟩ | ⟨-, hapart⟩
  · exact (hbecomes.indices index hindex name hname).imp_right fun hlost =>
      ⟨e, he, hbecomes.name.symm, hlost⟩
  · rw [hapart.indices] at hindex
    cases hindex

/-- Players are persons, and are looked up by their type. -/
def players : String :=
  "<m><entity name='Person'><field name='id' type='autoid'/></entity>" ++
  "<entity name='Player' extends='Person'><field name='type' type='string' index='true'/>" ++
  "</entity></m>"

theorem players_dangling : ∃ c, Compilation.compile {} Screens.noLibrary [players] none = .ok c ∧
    ∃ e ∈ c.model.entities, ∃ index ∈ e.indices, ∃ name ∈ index.fields,
      e.hasField name = false := by
  have hrun : (Compilation.compile {} Screens.noLibrary [players] none).toOption.any
      (fun c => ∃ e ∈ c.model.entities, ∃ index ∈ e.indices, ∃ name ∈ index.fields,
        e.hasField name = false) = true := by decide +kernel
  obtain ⟨c, hc, hdangling⟩ := Except.exists_ok_and hrun
  exact ⟨c, hc, of_decide_eq_true hdangling⟩

theorem players_lose_type : ∃ c, Compilation.compile {} Screens.noLibrary [players] none = .ok c ∧
    ∃ m, Compilation.declared {} [players] = .ok m ∧
      ∃ e ∈ m.entities, ∃ f ∈ e.fields, Loses {} e f := by
  obtain ⟨c, hc, e', he', index, hindex, name, hname, hmissing⟩ := players_dangling
  obtain ⟨m, hm, howned⟩ := compiled_index_owned_or_lost hc
  obtain ⟨e, he, -, f, hf, -, hlost⟩ :=
    (howned e' he' index hindex name hname).resolve_left (by simp [hmissing])
  exact ⟨c, hc, m, hm, e, he, f, hf, hlost⟩

theorem compiled_indices_not_all_owned : ¬∀ options library schemas screens c,
    Compilation.compile options library schemas screens = .ok c →
    ∀ e ∈ c.model.entities, ∀ index ∈ e.indices, ∀ name ∈ index.fields,
      e.hasField name = true := by
  intro hall
  obtain ⟨c, hc, e, he, index, hindex, name, hname, hmissing⟩ := players_dangling
  have howned := hall _ _ _ _ c hc e he index hindex name hname
  rw [hmissing] at howned
  cases howned

end EntitySchema
