import EntitySchema.Proofs.MadeEntities
import EntitySchema.Proofs.Preservation
import EntitySchema.Proofs.TakenFields

/-! Own fields of a completed model. Each of them is a field that the entity declares, or was
gathered by it while keys were completed, or was copied for one of its keys; and of the
declared ones those are missing that gave way to a discriminator or moved away. The
entities that passes add stand apart. -/

namespace EntitySchema

open Model (Evolves)
open Entity (Receives Relabels SameKeys SameOutline SameStanding TakesKeys isChange_receives
  isChange_relabels isChange_sameOutline isChange_sameStanding isChange_takesKeys)
open Hierarchy (Discriminated discriminatorName)

variable {m m' : Model} {options : Options} {warnings : List Warning} {name : String}
  {e e' e₁ : Entity} {f : Field}

/-! ### What leaves and what comes -/

/-- A field of this name gives way to the discriminator of a hierarchy. -/
def Replaces (options : Options) (m : Model) (e : Entity) (name : String) : Prop :=
  options.mapping = .subclassPerTable ∧ m.InHierarchy e ∧ name = discriminatorName

/-- The entity does not keep the field. -/
def Departs (options : Options) (m : Model) (e : Entity) (f : Field) : Prop :=
  Replaces options m e f.name ∨ MovesAway e f

theorem GivesWay.replaces (h : GivesWay options m warnings e f) : Replaces options m e f.name :=
  ⟨h.1, h.2.2.1, h.2.1⟩

theorem replaces_same (h : SameStanding e e') :
    Replaces options m e' name ↔ Replaces options m e name := by
  unfold Replaces Model.InHierarchy
  rw [h.name, h.parents]

/-- The fields that an entity has before they are put in lower case, but for those that its
keys name. -/
inductive Gathered (options : Options) (m : Model) (e : Entity) (f : Field) : Prop
  | own (declared : f ∈ e.fields) (stays : ¬Departs options m e f)
  | interfaceKey (origin : f.origin = .inheritedKey) (key : m.InterfaceKey e.name f.name)
    (stays : ¬Replaces options m e f.name)
  | discriminator (mapping : options.mapping = .subclassPerTable) (root : m.isRoot e.name = true)
    (origin : f.origin = .discriminator)
  | moved (origin : f.origin = .interfaceMref) (link : m.InterfaceLink e.name f.name)

/-! ### While keys are completed -/

namespace Entity

/-- What completing keys makes of an entity, up to references. -/
structure Collects (options : Options) (m : Model) (e e' : Entity) : Prop
    extends SameStanding e e' where
  indices : e'.indices = e.indices
  fields : ∀ f' ∈ e'.fields, (∃ f, Gathered options m e f ∧ f'.outline = f.outline) ∨
    f'.origin = .inheritedKey ∧ e'.InKey f'.name
  kept : ∀ f ∈ e.fields, (∃ f' ∈ e'.fields, f'.outline = f.outline) ∨ Departs options m e f
  keyed : ∀ field, e'.InKey field → m.Keyed e.name field
  root : options.mapping = .subclassPerTable → m.isRoot e.name = true →
    ∃ f ∈ e'.fields, f.name = discriminatorName ∧ f.origin = .discriminator

end Entity

open Entity (Collects)

/-- What discriminators make of an entity, if the mapping has them. -/
def Yields (options : Options) (m : Model) (e e' : Entity) : Prop :=
  options.mapping = .subclassPerTable ∧ (∃ found, Discriminated m e e' found) ∨
    options.mapping ≠ .subclassPerTable ∧ e' = e

theorem Pass.Discriminates.entity? (hnodup : m.entityNames.Nodup)
    (h : Discriminates options m warnings m') (he : m.entity? name = some e) :
    ∃ e', m'.entity? name = some e' ∧ Yields options m e e' := by
  rcases h with ⟨hmapping, h⟩ | ⟨hmapping, -, rfl⟩
  · obtain ⟨e', he', hdisc⟩ := (Hierarchy.addDiscriminators_ok hnodup h).2 name e he
    exact ⟨e', he', .inl ⟨hmapping, _, hdisc⟩⟩
  · exact ⟨e, he, .inr ⟨hmapping, rfl⟩⟩

namespace Yields

theorem standing (h : Evolves SameStanding [] m m') (hyields : Yields options m' e e') :
    Yields options m e e' :=
  hyields.imp_left fun ⟨hmapping, found, hdisc⟩ => ⟨hmapping, found, hdisc.standing h⟩

theorem same (h : Yields options m e e') :
    SameStanding e e' ∧ e'.keys = e.keys ∧ e'.indices = e.indices := by
  rcases h with ⟨-, _, hdisc⟩ | ⟨-, rfl⟩
  · cases hdisc <;> exact ⟨⟨rfl, rfl, rfl, rfl⟩, rfl, rfl⟩
  · exact ⟨⟨rfl, rfl, rfl, rfl⟩, rfl, rfl⟩

/-- A field is the discriminator of a root, or one that was not replaced. -/
theorem field (h : Yields options m e e') (he : e.DistinctFields) (hf : f ∈ e'.fields) :
    (options.mapping = .subclassPerTable ∧ m.isRoot e.name = true ∧
      f = Hierarchy.rootDiscriminator m e.name) ∨ f ∈ e.fields ∧ ¬Replaces options m e f.name := by
  rcases h with ⟨hmapping, _, hdisc⟩ | ⟨hmapping, rfl⟩
  · cases hdisc with
    | apart hout => exact .inr ⟨hf, fun h => hout h.2.1⟩
    | within _ =>
      rcases List.mem_append.mp hf with hf | hf
      · unfold Hierarchy.leading at hf
        split at hf
        · next hroot => exact .inl ⟨hmapping, hroot, List.mem_singleton.mp hf⟩
        · cases hf
      · exact .inr ⟨List.mem_of_mem_eraseP hf,
          fun h => Entity.ne_of_mem_eraseP he f hf h.2.2⟩
  · exact .inr ⟨hf, fun h => hmapping h.1⟩

theorem kept (h : Yields options m e e') (hf : f ∈ e.fields) :
    f ∈ e'.fields ∨ Replaces options m e f.name := by
  rcases h with ⟨hmapping, _, hdisc⟩ | ⟨-, rfl⟩
  · exact (hdisc.field hf).imp_right fun ⟨htype, hin, _⟩ => ⟨hmapping, hin, htype⟩
  · exact .inl hf

theorem root (h : Yields options m e e') (hmapping : options.mapping = .subclassPerTable)
    (hroot : m.isRoot e.name = true) : Hierarchy.rootDiscriminator m e.name ∈ e'.fields := by
  rcases h with ⟨-, _, hdisc⟩ | ⟨hnone, -⟩
  · cases hdisc with
    | apart hout => exact absurd (.inl hroot) hout
    | within _ =>
      refine List.mem_append_left _ ?_
      rw [Hierarchy.leading, if_pos hroot]
      exact List.mem_singleton_self _
  · exact absurd hmapping hnone

end Yields

/-- What an interface has to offer when fields move, it declares: neither copies of keys nor
discriminators are many-to-many. -/
theorem Model.InterfaceLink.declared {m₁ m₂ m₃ : Model} {a field : String}
    (hm₁ : m₁.Distinct) (hkeys : Evolves (TakesKeys m) [] m m₁)
    (hdisc : Pass.Discriminates options m₁ warnings m₂) (hlabels : Evolves Relabels [] m₂ m₃)
    (hlink : m₃.InterfaceLink a field) : m.InterfaceLink a field := by
  obtain ⟨i₃, hi₃, f, hf, hmref, hname⟩ := hlink
  obtain ⟨i₂, hi₂, hsame₃⟩ :=
    mem_ownInterfaces_back isChange_relabels (fun _ _ h => h.sameStanding) hlabels hi₃
  obtain ⟨i₁, hi₁, hsame₂⟩ := mem_ownInterfaces_back isChange_sameStanding (fun _ _ => id)
    (hdisc.standing hm₁.names) hi₂
  obtain ⟨i, hi, htakes⟩ := mem_ownInterfaces_back (isChange_takesKeys m)
    (fun _ _ h => h.gains.sameStanding) hkeys hi₁
  have hfound₁ := (mem_ownInterfaces.mp hi₁).1
  obtain ⟨i', hi', hyields⟩ := hdisc.entity? hm₁.names hfound₁
  rw [← hsame₂.name, (mem_ownInterfaces.mp hi₂).1] at hi'
  cases hi'
  rw [hsame₃.fields] at hf
  rcases hyields.field (hm₁.fields i₁ (entity?_mem hfound₁)) hf with ⟨-, -, rfl⟩ | ⟨hf₁, -⟩
  · cases hmref
  · refine ⟨i, hi, f, (htakes.taken f hf₁).resolve_right fun ⟨hnone, _⟩ => ?_, hmref, hname⟩
    rw [hmref] at hnone
    cases hnone

/-- An entity step by step: with copies of keys, with discriminators, with labels, and with
the fields that have moved. -/
structure Entity.Stages (options : Options) (m : Model) (e e₁ e₂ e₃ e' : Entity) : Prop where
  takes : TakesKeys m e e₁
  distinct : e₁.DistinctFields
  yields : Yields options m e₁ e₂
  relabels : Relabels e₂ e₃
  receives : Receives m e₃ e'
  stripped : e'.isAbstract = true → ∀ f ∈ e'.fields, f.isMref = false

namespace Entity.Stages

variable {e₂ e₃ : Entity}

theorem same (h : Stages options m e e₁ e₂ e₃ e') :
    SameStanding e e' ∧ e'.keys = e₁.keys ∧ e'.indices = e.indices := by
  obtain ⟨hsame₂, hkeys₂, hindices₂⟩ := h.yields.same
  have hindices₁ : e₁.indices = e.indices := by
    obtain ⟨front, back, keys, rfl⟩ := h.takes.gains
    rfl
  have hkeys₃ : e₃.keys = e₂.keys := (congrArg Entity.keys h.relabels :)
  have hindices₃ : e₃.indices = e₂.indices := (congrArg Entity.indices h.relabels :)
  refine ⟨isChange_sameStanding.trans h.takes.gains.sameStanding (isChange_sameStanding.trans hsame₂
    (isChange_sameStanding.trans h.relabels.sameStanding h.receives.toSameStanding)), ?_, ?_⟩
  · rw [h.receives.keys, hkeys₃, hkeys₂]
  · rw [h.receives.indices, hindices₃, hindices₂, hindices₁]

theorem gathered (h : Stages options m e e₁ e₂ e₃ e') (hf : f ∈ e'.fields) :
    Gathered options m e f ∨ f.origin = .inheritedKey ∧ e'.InKey f.name := by
  obtain ⟨hsame, hkeys, -⟩ := h.same
  have hname₁ := h.takes.gains.sameStanding.name
  by_cases hold : f ∈ e₃.fields
  · rw [h.relabels.fields] at hold
    rcases h.yields.field h.distinct hold with ⟨hmapping, hroot, rfl⟩ | ⟨hf₁, hstays⟩
    · exact .inl (.discriminator hmapping (hname₁ ▸ hroot) rfl)
    · rw [replaces_same h.takes.gains.sameStanding] at hstays
      rcases h.takes.taken f hf₁ with hown | ⟨-, horigin, hkey | hkey⟩
      · refine .inl (.own hown fun hdeparts => ?_)
        obtain ⟨habstract, hmref⟩ := hdeparts.resolve_left hstays
        rw [h.stripped (hsame.isAbstract.trans habstract) f hf] at hmref
        cases hmref
      · exact .inl (.interfaceKey horigin hkey hstays)
      · exact .inr ⟨horigin, by unfold InKey; rwa [hkeys]⟩
  · have hlink := (h.receives.received f hf).resolve_left hold
    rw [h.relabels.sameStanding.name, h.yields.same.1.name, hname₁] at hlink
    exact .inl (.moved ((h.receives.fields f hf).resolve_left hold).2 hlink)

theorem keyed (h : Stages options m e e₁ e₂ e₃ e') (he : m.entity? e.name = some e) {field : String}
    (hkey : e'.InKey field) : m.Keyed e.name field := by
  obtain ⟨-, hkeys, -⟩ := h.same
  unfold InKey at hkey
  rw [hkeys] at hkey
  refine (h.takes.keyed field hkey).elim (fun hown => ?_) id
  exact Model.keyed_iff.mpr ⟨e, Model.mem_lineage.mpr ⟨he, e.name, .refl, .refl⟩, hown⟩

theorem root (h : Stages options m e e₁ e₂ e₃ e') (hmapping : options.mapping = .subclassPerTable)
    (hroot : m.isRoot e.name = true) :
    ∃ f ∈ e'.fields, f.name = discriminatorName ∧ f.origin = .discriminator := by
  have hf := h.yields.root hmapping (h.takes.gains.sameStanding.name ▸ hroot)
  rw [← h.relabels.fields] at hf
  refine ⟨_, (h.receives.kept _ hf).resolve_right fun ⟨_, hmref⟩ => ?_, rfl, rfl⟩
  cases hmref

end Entity.Stages

theorem Pass.completeKeys_stages (hm : m.Distinct)
    (h : Ends (completeKeys options) m warnings m') (he : m.entity? name = some e) :
    ∃ e₁ e₂ e₃ e', m'.entity? name = some e' ∧ Entity.Stages options m e e₁ e₂ e₃ e' := by
  obtain ⟨m₁, m₂, m₃, hkeys, hdisc, -, hlabels, hrelocate⟩ := completeKeys_steps h
  have hchecked := Model.layered_of_check (Hierarchy.propagateKeys_ok hkeys).1
  have htakes := Hierarchy.propagateKeys_takes hkeys
  have hstanding₁ : Evolves SameStanding [] m m₁ := htakes.mono fun _ _ h => h.gains.sameStanding
  have hm₁ : m₁.Distinct := ⟨hstanding₁.nodup isChange_sameStanding hm.names,
    Hierarchy.propagateKeys_distinct hm.fields hkeys⟩
  have hrelabels := Keys.assignLabels_relabels hlabels
  have hlayered := ((hchecked.standing hstanding₁).standing (hdisc.standing hm₁.names)).standing
    (hrelabels.mono fun _ _ h => h.sameStanding)
  obtain ⟨e₁, he₁, htaken⟩ := htakes.entity? (isChange_takesKeys m) he
  obtain ⟨e₂, he₂, hyields⟩ := hdisc.entity? hm₁.names he₁
  obtain ⟨e₃, he₃, hsame₃⟩ := hrelabels.entity? isChange_relabels he₂
  obtain ⟨e', he', hreceives⟩ :=
    (Link.relocate_receives hlayered hrelocate).entity? (isChange_receives m₃) he₃
  exact ⟨e₁, e₂, e₃, e', he', {
    takes := htaken
    distinct := hm₁.fields e₁ (Model.entity?_mem he₁)
    yields := hyields.standing hstanding₁
    relabels := hsame₃
    receives := { hreceives with
      received := fun f hf => (hreceives.received f hf).imp_right
        (·.declared hm₁ htakes hdisc hrelabels) }
    stripped := Link.relocate_stripped hrelocate (Model.entity?_mem he') }⟩

theorem Pass.completeKeys_collects (hm : m.Distinct)
    (h : Ends (completeKeys options) m warnings m') (he : m.entity? name = some e) :
    ∃ e', m'.entity? name = some e' ∧ Collects options m e e' := by
  obtain ⟨e₁, e₂, e₃, e', he', hstages⟩ := completeKeys_stages hm h he
  obtain ⟨kept, hkept, hfields⟩ := completeKeys_kept hm.names h he
  rw [he'] at hkept
  cases hkept
  obtain ⟨hsame, -, hindices⟩ := hstages.same
  refine ⟨e', he', { hsame with
    indices := hindices
    fields := fun f hf => (hstages.gathered hf).imp_left fun hgathered => ⟨f, hgathered, rfl⟩
    kept := fun f hf => ?_
    keyed := fun _ => hstages.keyed (Model.entity?_self he)
    root := hstages.root }⟩
  rcases hfields f hf with hf | hgives | hmoves
  · exact .inl ⟨f, hf, rfl⟩
  · exact .inr (.inl hgives.replaces)
  · exact .inr (.inr hmoves)

/-! ### Before links are named -/

section Outlines

variable {m₁ : Model} {f₁ : Field} (hout : Evolves SameOutline [] m m₁) (he : SameOutline e e₁)

include hout he in
theorem replaces_outline : Replaces options m₁ e₁ name ↔ Replaces options m e name := by
  unfold Replaces
  rw [Model.inHierarchy_standing (hout.mono fun _ _ h => h.sameStanding) he.sameStanding]

include hout he in
theorem departs_outline (hf : f₁.outline = f.outline) :
    Departs options m₁ e₁ f₁ ↔ Departs options m e f := by
  unfold Departs MovesAway
  rw [replaces_outline hout he, Field.name_of_outline hf, Field.isMref_of_outline hf,
    he.sameStanding.isAbstract]

include hout in
theorem Model.InterfaceLink.outline {a field : String} (hlink : m₁.InterfaceLink a field) :
    m.InterfaceLink a field := by
  obtain ⟨i₁, hi₁, f₁, hf₁, hmref, rfl⟩ := hlink
  obtain ⟨i, hi, hsame⟩ :=
    mem_ownInterfaces_back isChange_sameOutline (fun _ _ h => h.sameStanding) hout hi₁
  obtain ⟨f, hf, hfield⟩ := hsame.symm.grows.field hf₁
  exact ⟨i, hi, f, hf, (Field.isMref_of_outline hfield).trans hmref, Field.name_of_outline hfield⟩

include hout he in
theorem Gathered.outline (hm : m.Closed) (h : Gathered options m₁ e₁ f) :
    ∃ g, Gathered options m e g ∧ f.outline = g.outline := by
  have hname := he.sameStanding.name
  cases h with
  | own hown hstays =>
    obtain ⟨g, hg, hfield⟩ := he.symm.grows.field hown
    exact ⟨g, .own hg fun hdeparts => hstays ((departs_outline hout he hfield.symm).mpr hdeparts),
      hfield.symm⟩
  | interfaceKey horigin hkey hstays =>
    have hkeys := hout.mono fun e e' h => { h.sameStanding with keys := h.keys : SameKeys e e' }
    exact ⟨f, .interfaceKey horigin (hname ▸ hkey.back hm hkeys)
      fun h => hstays ((replaces_outline hout he).mpr h), rfl⟩
  | discriminator hmapping hroot horigin =>
    rw [Model.isRoot_standing (hout.mono fun _ _ h => h.sameStanding), hname] at hroot
    exact ⟨f, .discriminator hmapping hroot horigin, rfl⟩
  | moved horigin hlink => exact ⟨f, .moved horigin (hname ▸ hlink.outline hout), rfl⟩

include hout he in
theorem Entity.Collects.outline (hm : m.Closed) (h : Collects options m₁ e₁ e') :
    Collects options m e e' where
  toSameStanding := isChange_sameStanding.trans he.sameStanding h.toSameStanding
  indices := h.indices.trans he.indices
  fields f' hf' := (h.fields f' hf').imp_left fun ⟨f, hf, hsame⟩ => by
    obtain ⟨g, hg, hfield⟩ := hf.outline hout he hm
    exact ⟨g, hg, hsame.trans hfield⟩
  kept f hf := by
    obtain ⟨f₁, hf₁, hfield⟩ := he.grows.field hf
    rcases h.kept f₁ hf₁ with ⟨f', hf', hsame⟩ | hdeparts
    · exact .inl ⟨f', hf', hsame.trans hfield⟩
    · exact .inr ((departs_outline hout he hfield).mp hdeparts)
  keyed field hkey := by
    have hback := (hout.symm fun _ _ => SameOutline.symm).mono fun _ _ h => h.grows
    exact he.sameStanding.name ▸ (h.keyed field hkey).grows hback
  root hmapping hroot := by
    rw [← Model.isRoot_standing (hout.mono fun _ _ h => h.sameStanding),
      ← he.sameStanding.name] at hroot
    exact h.root hmapping hroot

end Outlines

namespace Pass

variable {m₁ : Model} (hnames : Ends (completeNames options.dialect) m () m₁)
  (hkeys : Ends (completeKeys options) m₁ warnings m')

include hnames hkeys

/-- The hierarchy was checked as it is declared. -/
theorem declared_hierarchy : m.Layered ∧ m.Closed := by
  obtain ⟨_, _, _, hpropagate, -⟩ := completeKeys_steps hkeys
  have hcheck := (Hierarchy.propagateKeys_ok hpropagate).1
  have hout := Link.assignNames_outline (completeNames_steps hnames)
  have hback : Evolves SameStanding [] m₁ m :=
    (hout.symm fun _ _ => SameOutline.symm).mono fun _ _ h => h.sameStanding
  exact ⟨(Model.layered_of_check hcheck).standing hback,
    (Model.closed_of_check hcheck).standing hback⟩

theorem declared_collects (hm : m.Distinct) (he : m.entity? name = some e) :
    ∃ e', m'.entity? name = some e' ∧ Collects options m e e' := by
  have hout := Link.assignNames_outline (completeNames_steps hnames)
  have hm₁ : m₁.Distinct := ⟨hout.nodup isChange_sameOutline hm.names,
    completeNames_distinct hm.fields hnames⟩
  obtain ⟨e₁, he₁, hsame⟩ := hout.entity? isChange_sameOutline he
  obtain ⟨e', he', hcollects⟩ := completeKeys_collects hm₁ hkeys he₁
  exact ⟨e', he', hcollects.outline hout hsame (declared_hierarchy hnames hkeys).2⟩

end Pass

end EntitySchema
