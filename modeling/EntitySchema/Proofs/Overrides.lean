import EntitySchema.Proofs.Outcome

/-! Fields that are declared again. Their types are compared while fields still have the
letter case of the documents. When all names are in lower case, the check accepts the
model exactly if the fields that have come to share a name by this are of one type. -/

namespace EntitySchema

open Model (Evolves)
open Entity (Becomes Grows IsChange SameOutline SameStanding TakesKeys isChange_grows
  isChange_sameOutline isChange_sameStanding isChange_takesKeys)
open FieldCase (lowerField)
open Hierarchy (checkOverride checkOverrides sources)

variable {m m' m₁ : Model} {options : Options} {warnings : List Warning} {a name : String}
  {e e' s s' : Entity} {f f' g : Field}

/-! ### What the check accepts -/

theorem Hierarchy.mem_sources : s ∈ sources m name ↔
    m.entity? s.name = some s ∧ s.name ≠ name ∧ m.Inherits name s.name := by
  unfold sources
  rw [List.mem_append]
  constructor
  · rintro (hs | hs)
    · obtain ⟨hs, hne, hpath⟩ := Model.mem_ancestors.mp hs
      exact ⟨hs, hne, s.name, hpath.to_reflTransGen, .refl⟩
    · obtain ⟨hs, hne, c, hc, hpath⟩ := Model.mem_interfaces.mp hs
      exact ⟨hs, hne, c, hc, hpath.to_reflTransGen⟩
  · rintro ⟨hs, hne, hinherits⟩
    have hlineage := Model.mem_lineage.mpr ⟨hs, hinherits⟩
    unfold Model.lineage at hlineage
    simp only [List.mem_append, List.mem_reverse, Option.mem_toList] at hlineage
    rcases hlineage with (hs | hs) | hself
    · exact .inr hs
    · exact .inl hs
    · exact absurd (Model.entity?_name hself) hne

namespace Entity

/-- A field that both entities declare has one type. -/
def Agrees (e s : Entity) : Prop := ∀ f ∈ e.fields, ∀ g ∈ s.fields,
  f.origin = .declared → g.origin = .declared → g.name = f.name → g.type.name = f.type.name

end Entity

namespace Hierarchy

theorem checkOverride_ok_iff : checkOverride e f s = .ok () ↔
    ∀ g, s.field? f.name = some g → g.origin = .declared → g.type.name = f.type.name := by
  unfold checkOverride
  split
  · next g hg =>
    by_cases hretyped : (g.origin = .declared && g.type.name ≠ f.type.name) = true
    · rw [if_pos hretyped]
      obtain ⟨horigin, hne⟩ : g.origin = .declared ∧ g.type.name ≠ f.type.name := by
        simpa using hretyped
      exact iff_of_false (by simp) fun h => hne (h g hg horigin)
    · rw [if_neg hretyped]
      refine iff_of_true rfl fun x hx horigin => ?_
      rw [hg] at hx
      cases hx
      simpa [horigin] using hretyped
  · next hnone => exact iff_of_true rfl fun g hg => by rw [hnone] at hg; cases hg

theorem checkOverrides_ok_iff (hm : m.DistinctFields) :
    checkOverrides m = .ok () ↔ ∀ e ∈ m.entities, ∀ s ∈ sources m e.name, e.Agrees s := by
  unfold checkOverrides
  simp only [Except.forM_ok_iff, checkOverride_ok_iff, List.mem_filter, decide_eq_true_eq]
  refine forall₂_congr fun e _ => ?_
  have hfield : ∀ s ∈ sources m e.name, ∀ {name g}, s.field? name = some g ↔
      g ∈ s.fields ∧ g.name = name := fun s hs _ _ =>
    Entity.field?_iff (hm s (Model.entity?_mem (mem_sources.mp hs).1))
  constructor
  · intro h s hs f hf g hg hforigin hgorigin hname
    exact h f ⟨hf, hforigin⟩ s hs g ((hfield s hs).mpr ⟨hg, hname⟩) hgorigin
  · rintro h f ⟨hf, hforigin⟩ s hs g hg hgorigin
    obtain ⟨hg, hname⟩ := (hfield s hs).mp hg
    exact h s hs f hf g hg hforigin hgorigin hname

theorem checkOverrides_congr (h : m'.entities = m.entities) :
    checkOverrides m' = checkOverrides m := by
  rcases m with ⟨⟩
  rcases m' with ⟨⟩
  cases h
  rfl

/-- What an entity inherits from, it still inherits from when all stay in their places. -/
theorem sources_change {R : Entity → Entity → Prop} (hR : IsChange R)
    (hstanding : ∀ e e', R e e' → SameStanding e e') (h : Evolves R [] m m')
    (hs : s ∈ sources m a) :
    ∃ s' ∈ sources m' a, m'.entity? s.name = some s' ∧ R s s' := by
  obtain ⟨hfound, hne, hinherits⟩ := mem_sources.mp hs
  obtain ⟨s', hs', hsame⟩ := h.entity? hR hfound
  have hname := hR.name hsame
  rw [← Model.inherits_standing (h.mono hstanding)] at hinherits
  exact ⟨s', mem_sources.mpr ⟨hname ▸ hs', hname ▸ hne, hname ▸ hinherits⟩, hs', hsame⟩

end Hierarchy

/-! ### Fields of one name -/

/-- The entity declares the field, and the field stays. -/
structure Keeps (options : Options) (m : Model) (e : Entity) (f : Field) : Prop where
  own : f ∈ e.fields
  declared : f.origin = .declared
  stays : ¬Departs options m e f

theorem Keeps.outline {e₁ : Entity} (hf : Keeps options m e f)
    (hout : Evolves SameOutline [] m m₁) (he : SameOutline e e₁) :
    ∃ f₁, f₁.outline = f.outline ∧ Keeps options m₁ e₁ f₁ := by
  obtain ⟨f₁, hf₁, hfield⟩ := he.grows.field hf.own
  refine ⟨f₁, hfield, hf₁, (Field.origin_of_outline hfield).trans hf.declared, fun hdeparts => ?_⟩
  exact hf.stays ((departs_outline hout he hfield).mp hdeparts)

namespace Pass

/-- Overrides are checked when discriminators have been added, and copies of keys, which
are not declared. -/
theorem completeKeys_agrees (hm : m.Distinct) (h : Ends (completeKeys options) m warnings m')
    (he : m.entity? e.name = some e) (hs : s ∈ sources m e.name) (hf : Keeps options m e f)
    (hg : Keeps options m s g) (hname : g.name = f.name) : g.type.name = f.type.name := by
  obtain ⟨m₁, m₂, m₃, hkeys, hdisc, hoverrides, -⟩ := completeKeys_checked h
  have htakes := Hierarchy.propagateKeys_takes hkeys
  have hstanding₁ : Evolves SameStanding [] m m₁ := htakes.mono fun _ _ h => h.gains.sameStanding
  have hnodup₁ := hstanding₁.nodup isChange_sameStanding hm.names
  have hstanding := hstanding₁.trans_nil isChange_sameStanding (hdisc.standing hnodup₁)
  have hkept : ∀ {x}, m.entity? x.name = some x → ∃ x₂, m₂.entity? x.name = some x₂ ∧
      ∀ f, Keeps options m x f → f ∈ x₂.fields := by
    intro x hx
    obtain ⟨x₁, hx₁, htaken⟩ := htakes.entity? (isChange_takesKeys m) hx
    obtain ⟨x₂, hx₂, hyields⟩ := hdisc.entity? hnodup₁ hx₁
    refine ⟨x₂, hx₂, fun f hf => ?_⟩
    refine ((hyields.standing hstanding₁).kept (htaken.gains.own hf.own)).resolve_right ?_
    rw [replaces_same htaken.gains.sameStanding]
    exact fun hreplaces => hf.stays (.inl hreplaces)
  obtain ⟨e₂, he₂, hfields⟩ := hkept he
  obtain ⟨s₂, hs₂, hsfields⟩ := hkept (Hierarchy.mem_sources.mp hs).1
  obtain ⟨_, hsource, hfound, -⟩ :=
    Hierarchy.sources_change isChange_sameStanding (fun _ _ => id) hstanding hs
  rw [hs₂] at hfound
  cases hfound
  have hdistinct := hdisc.distinct hnodup₁ (Hierarchy.propagateKeys_distinct hm.fields hkeys)
  rw [← Model.entity?_name he₂] at hsource
  exact (Hierarchy.checkOverrides_ok_iff hdistinct).mp hoverrides e₂ (Model.entity?_mem he₂) s₂
    hsource f (hfields f hf) g (hsfields g hg) hf.declared hg.declared hname

/-- What was declared and stays was compared as it was declared. -/
theorem complete_agrees (hm : m.Distinct) (h : Ends (complete options) m warnings m')
    (he : m.entity? e.name = some e) (hs : s ∈ sources m e.name) (hf : Keeps options m e f)
    (hg : Keeps options m s g) (hname : g.name = f.name) : g.type.name = f.type.name := by
  obtain ⟨m₁, m₂, m₃, m₄, hnames, hkeys, -⟩ := complete_steps h
  have hout := Link.assignNames_outline (completeNames_steps hnames)
  have hm₁ : m₁.Distinct := ⟨hout.nodup isChange_sameOutline hm.names,
    completeNames_distinct hm.fields hnames⟩
  obtain ⟨e₁, he₁, hsame⟩ := hout.entity? isChange_sameOutline he
  obtain ⟨s₁, hsource, -, hssame⟩ :=
    Hierarchy.sources_change isChange_sameOutline (fun _ _ h => h.sameStanding) hout hs
  obtain ⟨f₁, hfout, hf₁⟩ := hf.outline hout hsame
  obtain ⟨g₁, hgout, hg₁⟩ := hg.outline hout hssame
  have hname₁ := Model.entity?_name he₁
  rw [← hname₁] at he₁ hsource
  rw [← Field.kind_of_outline hfout, ← Field.kind_of_outline hgout]
  refine completeKeys_agrees hm₁ hkeys he₁ hsource hf₁ hg₁ ?_
  rw [Field.name_of_outline hfout, Field.name_of_outline hgout, hname]

end Pass

/-! ### Fields in lower case -/

namespace Entity

theorem Becomes.keeps (h : Becomes options m e e') (hf : Keeps options m e f) :
    ∃ f' ∈ e'.fields, f'.outline = (lowerField f).outline :=
  (h.kept f hf.own).resolve_left hf.stays

/-- Only declared fields of the entity end as declared fields. -/
theorem Becomes.declared (h : Becomes options m e e') (hf' : f' ∈ e'.fields)
    (horigin : f'.origin = .declared) :
    ∃ f, Keeps options m e f ∧ f'.outline = (lowerField f).outline := by
  rcases h.fields f' hf' with ⟨f, hf, hout⟩ | ⟨hcopied | hcopied, -⟩
  · have horigin : f.origin = .declared := (Field.origin_of_outline hout).symm.trans horigin
    refine ⟨f, ?_, hout⟩
    cases hf with
    | own hown hstays => exact ⟨hown, horigin, hstays⟩
    | interfaceKey hcopied _ _ => cases hcopied.symm.trans horigin
    | discriminator _ _ hadded => cases hadded.symm.trans horigin
    | moved hmoved _ => cases hmoved.symm.trans horigin
  all_goals cases hcopied.symm.trans horigin

/-- No two fields of one entity come to share a name. -/
theorem Becomes.field_unique (h : Becomes options m e e') (he' : e'.DistinctFields)
    (hf : Keeps options m e f) (hg : Keeps options m e g)
    (hlower : Text.lower g.name = Text.lower f.name) : g.type.name = f.type.name := by
  obtain ⟨f', hf', hfout⟩ := h.keeps hf
  obtain ⟨g', hg', hgout⟩ := h.keeps hg
  have hname : g'.name = f'.name := (Field.name_of_outline hgout).trans
    (hlower.trans (Field.name_of_outline hfout).symm)
  rw [List.inj_on_of_nodup_map he' hg' hf' hname, hfout] at hgout
  exact (Field.kind_of_outline hgout.symm :)

/-- An entity that stands apart looks up to itself only. -/
theorem Apart.inherits {b : String} (hapart : e.Apart) (he : m.entity? e.name = some e)
    (h : m.Inherits e.name b) : b = e.name := by
  have hnone : ∀ {links : Entity → List String} {b : String}, links e = [] →
      b ∉ m.linksOf links e.name := fun hlinks hb => by
    obtain ⟨found, hfound, hb⟩ := Model.mem_linksOf.mp hb
    rw [he] at hfound
    cases hfound
    rw [hlinks] at hb
    cases hb
  obtain ⟨c, hac, hcb⟩ := h
  obtain rfl : c = e.name := (Relation.ReflTransGen.cases_head hac).elim Eq.symm
    fun ⟨_, hstep, _⟩ => absurd hstep (hnone hapart.parents)
  exact (Relation.ReflTransGen.cases_head hcb).elim Eq.symm
    fun ⟨_, hstep, _⟩ => absurd hstep (hnone hapart.implements)

end Entity

namespace Pass

/-- What an entity inherits from, it still inherits from in the end. -/
theorem complete_sources (hm : m.Distinct) (h : Ends (complete options) m warnings m')
    (hs : s ∈ sources m a) (hs' : m'.entity? s.name = some s') : s' ∈ sources m' a := by
  obtain ⟨m₁, m₂, m₃, m₄, hnames, hkeys, hreferences, hlinks, htables⟩ := complete_steps h
  have hordered := completeReferences_ordered hm hnames hkeys hreferences
  obtain ⟨_, hgrows₄⟩ := completeLinks_grows hlinks
  obtain ⟨_, hgrows'⟩ := completeTables_grows (hgrows₄.nodup isChange_grows hordered.names) htables
  obtain ⟨hfound, hne, hinherits⟩ := Hierarchy.mem_sources.mp hs
  rw [← Model.inherits_standing (complete_standing hm.names hnames hkeys hreferences)] at hinherits
  have hname := Model.entity?_name hs'
  refine Hierarchy.mem_sources.mpr ⟨hname ▸ hs', hname ▸ hne, hname ▸ ?_⟩
  exact hinherits.grows (hgrows₄.trans isChange_grows hgrows')

/-- Identity roots included, an entity inherits in the end no declared fields but those that
it inherits as they are declared. -/
theorem complete_inherits_declared (hm : m.AsRead) (h : Ends (complete options) m warnings m')
    (ha : a ∈ m.entityNames) (hs' : s' ∈ m'.lineage a) (hf' : f' ∈ s'.fields)
    (horigin : f'.origin = .declared) :
    ∃ s ∈ m.lineage a, ∃ f, Keeps options m s f ∧ f'.outline = (lowerField f).outline := by
  obtain ⟨m₁, m₂, m₃, m₄, hnames, hkeys, hreferences, hlinks, htables⟩ := complete_steps h
  have hordered := completeReferences_ordered hm.distinct hnames hkeys hreferences
  have hstanding := complete_standing hm.names hnames hkeys hreferences
  let kind (f' : Field) : Prop := f'.origin = .declared →
    ∃ s ∈ m.lineage a, ∃ f, Keeps options m s f ∧ f'.outline = (lowerField f).outline
  have houtline : ∀ f f' : Field, f'.outline = f.outline → kind f → kind f' := by
    intro f f' hout hkind horigin
    unfold kind at hkind
    rw [← Field.origin_of_outline hout, ← hout] at hkind
    exact hkind horigin
  have hinside : m₃.Encloses (m₃.Inherits a) kind := by
    refine hordered.layered.encloses hordered.closed hordered.names ?_
      fun s₃ hs₃ f₃ hf₃ horigin => ?_
    · rw [hstanding.entityNames isChange_sameStanding]
      exact List.mem_append_left _ ha
    · obtain ⟨s, hs, hfound, -⟩ :=
        Model.mem_lineage_change_back isChange_sameStanding (fun _ _ => id) hstanding hs₃
      obtain ⟨s', hs', hbecomes⟩ := completeReferences_becomes hm hnames hkeys hreferences hfound
      rw [(Model.mem_lineage.mp hs₃).1] at hs'
      cases hs'
      exact ⟨s, hs, hbecomes.declared hf₃ horigin⟩
  obtain ⟨made, hlinked, -⟩ := completeLinks_made hordered hlinks
  have hm' := (completeTables_encloses (hinside.outline houtline hlinked) houtline
    (fun _ _ horigin => by cases horigin) (fun _ _ _ _ horigin => by cases horigin) htables).2
  exact hm'.lineage (.inl ⟨a, .refl, .refl⟩) hs' f' hf' horigin

end Pass

/-- Fields of an entity and of one that it inherits from, which are declared under names
that differ in the case of letters only. -/
structure Coincide (options : Options) (m : Model) (e s : Entity) (f g : Field) : Prop where
  own : Keeps options m e f
  inherited : Keeps options m s g
  differ : g.name ≠ f.name
  lower : Text.lower g.name = Text.lower f.name

namespace Pass

/-- Fields that share a name in the end agree, if those agree that have come to share it. -/
theorem complete_agrees_lower (hm : m.Distinct) (h : Ends (complete options) m warnings m')
    (hagree : ∀ s ∈ sources m e.name, ∀ f g, Coincide options m e s f g →
      g.type.name = f.type.name)
    (he : m.entity? e.name = some e) (hbecomes : Becomes options m e e')
    (he' : e'.DistinctFields) (hs : s ∈ m.lineage e.name) (hf : Keeps options m e f)
    (hg : Keeps options m s g) (hlower : Text.lower g.name = Text.lower f.name) :
    g.type.name = f.type.name := by
  obtain ⟨hfound, hinherits⟩ := Model.mem_lineage.mp hs
  by_cases hsame : s.name = e.name
  -- an identity root may own what the entity itself has declared
  · rw [hsame, he] at hfound
    cases hfound
    exact hbecomes.field_unique he' hf hg hlower
  · have hsource := Hierarchy.mem_sources.mpr ⟨hfound, hsame, hinherits⟩
    by_cases hname : g.name = f.name
    · exact complete_agrees hm h he hsource hf hg hname
    · exact hagree s hsource f g ⟨hf, hg, hname, hlower⟩

/-- A clash in the end is one of fields that have come to share a name. -/
theorem complete_overrides (hm : m.AsRead) (h : Ends (complete options) m warnings m') :
    checkOverrides m' = .ok () ↔ ∀ e ∈ m.entities, ∀ s ∈ sources m e.name, ∀ f g,
      Coincide options m e s f g → g.type.name = f.type.name := by
  have hsound := (complete_sound hm.sound h).1
  have houtcome := complete_outcome hm h
  have hdistinct : m'.DistinctFields := fun e he => (hsound.entities e he).fields
  rw [Hierarchy.checkOverrides_ok_iff hdistinct]
  constructor
  · intro hagrees e he s hs f g hcoincide
    have hsfound := (Hierarchy.mem_sources.mp hs).1
    obtain ⟨e', he', hebecomes⟩ := houtcome.becomes e he
    obtain ⟨s', hs', hsbecomes⟩ := houtcome.becomes s (Model.entity?_mem hsfound)
    obtain ⟨f', hf', hfout⟩ := hebecomes.keeps hcoincide.own
    obtain ⟨g', hg', hgout⟩ := hsbecomes.keeps hcoincide.inherited
    have hsource := complete_sources hm.distinct h hs hs'
    rw [← Model.entity?_name he'] at hsource
    have hkind := hagrees e' (Model.entity?_mem he') s' hsource f' hf' g' hg'
      ((Field.origin_of_outline hfout).trans hcoincide.own.declared)
      ((Field.origin_of_outline hgout).trans hcoincide.inherited.declared)
      ((Field.name_of_outline hgout).trans
        (hcoincide.lower.trans (Field.name_of_outline hfout).symm))
    rwa [Field.kind_of_outline hfout, Field.kind_of_outline hgout] at hkind
  · intro hagree e' he' s' hs' f' hf' g' hg' hforigin hgorigin hname
    obtain ⟨hs', hne, hinherits⟩ := Hierarchy.mem_sources.mp hs'
    rcases houtcome.fresh e' he' with ⟨e, he, hbecomes⟩ | ⟨-, hapart⟩
    · rw [hbecomes.name] at hinherits
      obtain ⟨f, hf, hfout⟩ := hbecomes.declared hf' hforigin
      obtain ⟨s, hs, g, hg, hgout⟩ := complete_inherits_declared hm h (List.mem_map_of_mem he)
        (Model.mem_lineage.mpr ⟨hs', hinherits⟩) hg' hgorigin
      have hlower : Text.lower g.name = Text.lower f.name :=
        (Field.name_of_outline hgout).symm.trans (hname.trans (Field.name_of_outline hfout))
      have hkind : g.type.name = f.type.name :=
        complete_agrees_lower hm.distinct h (hagree e he) (Model.entity?_of_mem hm.names he)
          hbecomes (hdistinct e' he') hs hf hg hlower
      rw [Field.kind_of_outline hfout, Field.kind_of_outline hgout]
      exact hkind
    · exact absurd (hapart.inherits (Model.entity?_of_mem hsound.names he') hinherits) hne

end Pass

/-! ### Compiled models -/

/-- After a compilation, declared fields agree with those of their name that are inherited,
which is what the check asks for, exactly if those agree whose names were put in the same
lower case. -/
theorem compiled_overrides_agree_iff {library : Screens.Library} {schemas : List String}
    {screens : Option String} {c : Compiled}
    (h : Compilation.compile options library schemas screens = .ok c) :
    ∃ m, Compilation.declared options schemas = .ok m ∧
      (checkOverrides c.model = .ok () ↔
        ∀ e ∈ c.model.entities, ∀ s ∈ sources c.model e.name, e.Agrees s) ∧
      (checkOverrides c.model = .ok () ↔ ∀ e ∈ m.entities, ∀ s ∈ sources m e.name, ∀ f g,
        Coincide options m e s f g → g.type.name = f.type.name) := by
  obtain ⟨m, m', warnings, hdeclared, hcomplete, heq, -⟩ := Compilation.compile_declared h
  have hm := Compilation.declared_asRead hdeclared
  have hsound :=
    (Pass.complete_sound hm.sound hcomplete).1
  refine ⟨m, hdeclared, Hierarchy.checkOverrides_ok_iff fun e he => ?_, ?_⟩
  · exact (hsound.entities e (heq ▸ he)).fields
  · rw [Hierarchy.checkOverrides_congr heq]
    exact Pass.complete_overrides hm hcomplete

/-- A child has a code as its parent has one, in another letter case and of another type. -/
def codes : String :=
  "<m><entity name='Parent'><field name='id' type='autoid'/><field name='Code' type='string'/>" ++
  "</entity><entity name='Child' extends='Parent'><field name='code' type='int'/></entity></m>"

theorem codes_compiled : ∃ c, Compilation.compile {} Screens.noLibrary [codes] none = .ok c ∧
    checkOverrides c.model ≠ .ok () := by
  have hrun : (Compilation.compile {} Screens.noLibrary [codes] none).toOption.any
      (fun c => !(checkOverrides c.model).toBool) = true := by decide +kernel
  obtain ⟨c, hc, hrefused⟩ := Except.exists_ok_and hrun
  refine ⟨c, hc, fun haccepted => ?_⟩
  rw [haccepted] at hrefused
  cases hrefused

theorem codes_coincide : ∃ c, Compilation.compile {} Screens.noLibrary [codes] none = .ok c ∧
    ∃ m, Compilation.declared {} [codes] = .ok m ∧ ∃ e ∈ m.entities, ∃ s ∈ sources m e.name,
      ∃ f g, Coincide {} m e s f g ∧ g.type.name ≠ f.type.name := by
  obtain ⟨c, hc, hrefused⟩ := codes_compiled
  obtain ⟨m, hm, -, hiff⟩ := compiled_overrides_agree_iff hc
  rw [ne_eq, hiff] at hrefused
  push Not at hrefused
  exact ⟨c, hc, m, hm, hrefused⟩

theorem compiled_overrides_not_always_agree : ¬∀ options library schemas screens c,
    Compilation.compile options library schemas screens = .ok c →
    checkOverrides c.model = .ok () := by
  intro hall
  obtain ⟨c, hc, hrefused⟩ := codes_compiled
  exact hrefused (hall _ _ _ _ c hc)

end EntitySchema
