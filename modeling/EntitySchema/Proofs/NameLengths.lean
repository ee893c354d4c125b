import EntitySchema.Proofs.Integrity
import EntitySchema.Proofs.LinkLengths

/-! Lengths of names. Where documents give short names in ASCII, so that the names of links
fit, every name fits when lengths are checked in the end, but for those of identity roots,
which are not cut. -/

namespace EntitySchema

open Model (Evolves)
open Entity (SameBy SameOutline SameStanding isChange_sameOutline isChange_sameStanding)
open Hierarchy (identityName)
open Identifier (Brief Fits)

variable {m m' : Model} {options : Options} {dialect : Dialect} {limit : Nat} {name : String}

open Link (LinksFit)

/-! ### When fields are backed -/

/-- The name of the field fits, and so do all of its link. -/
def Field.Fits (limit : Nat) (f : Field) : Prop :=
  f.name.length ≤ limit ∧
    ∀ link, f.type.link? = some link → ∀ name ∈ link.names, name.length ≤ limit

/-- All names of entities, fields and links fit. -/
structure Model.NamesFit (limit : Nat) (m : Model) : Prop where
  entities : m.All fun e => e.name.length ≤ limit
  fields : m.AllFields (Field.Fits limit)

namespace Link

open Model (NamesFit)

variable {made : List String} {site : Site}

theorem showing_nameFits {f : Field} (labels : List String) (h : f.Fits limit) :
    (showing labels f).Fits limit := by
  rcases f with ⟨_, _, type⟩
  cases type <;> exact h

theorem through_nameFits {f : Field} {own remote : String} (hown : own.length ≤ limit)
    (hremote : remote.length ≤ limit) (h : f.Fits limit) : (through own remote f).Fits limit := by
  rcases f with ⟨_, _, type⟩
  cases type with
  | mref target link =>
    refine ⟨h.1, fun link' hlink name hname => ?_⟩
    cases hlink
    rcases mem_names.mp hname with hname | hname | hname
    · exact h.2 link rfl name (mem_names.mpr (.inl hname))
    · exact Option.some.inj hname ▸ hown
    · exact Option.some.inj hname ▸ hremote
  | _ => exact h

/-- The columns of an entity fit. -/
theorem column_length {e : Entity} {entity : String} (he : ∀ f ∈ e.fields, f.Fits limit)
    (h : e.HasColumn name entity) : name.length ≤ limit := by
  obtain ⟨f, hf, rfl, -⟩ := h
  exact (he f hf).1

theorem make_fits {owner new : Entity} {field : String} {target : Target} {link : Link}
    (hlimit : dialect.limit? = some limit) (hlink : ∀ id ∈ link.names, id.length ≤ limit)
    (h : make m dialect owner field target link name = .ok new) :
    ∀ f ∈ new.fields, f.Fits limit := by
  have hroom := Identifier.digestLength_lt hlimit
  obtain ⟨localId, remoteId, hlocal, hremote, -, hcolumns⟩ := make_ok h
  have hplain : ∀ {name target}, name.length ≤ limit → (column name target).Fits limit :=
    fun hname => ⟨hname, by simp [column, Field.named, FieldType.link?]⟩
  rw [withColumns_ok hcolumns]
  intro f hf
  simp only [plainEntity, List.mem_append, List.mem_singleton, List.mem_map] at hf
  rcases hf with rfl | ⟨key, -, rfl⟩ | rfl
  · exact ⟨hroom, by simp [keyField, Field.named, FieldType.link?]⟩
  · refine hplain ?_
    unfold ownerColumnName
    split
    · exact hlimit ▸ Identifier.mangle_length hroom _
    · exact hlink localId (mem_names.mpr (.inr (.inl hlocal)))
  · exact hplain (hlink remoteId (mem_names.mpr (.inr (.inr hremote))))

/-- A field that is backed gets columns that fit, or its link entity is made of such. -/
theorem Backed.fits (hlimit : dialect.limit? = some limit)
    (h : Backed dialect m site made m') (hm : m.NamesFit limit) : m'.NamesFit limit := by
  cases h with
  | @reused e f target link existing _ _ _ _ _ hfound hreuse =>
    obtain ⟨remote, own, hremote, hown, rfl⟩ := reuse_ok hreuse
    have hexisting := hm.fields existing (Model.entity?_mem hfound)
    have hremote := column_length hexisting (remoteColumn?_ok hremote)
    have hown := column_length hexisting (localColumn?_ok hown).1
    have hshown : (m.changeEntity existing.name (showIn remote target.labels)).AllFields
        (Field.Fits limit) := by
      refine hm.fields.changeEntity fun e _ he f' hf' => ?_
      obtain ⟨f, hf, hkeeps⟩ := exists_of_forall₂_right (forall₂_changeFirst
        (R := fun f f' : Field => f.Fits limit → f'.Fits limit) (fun _ => id)
        fun f _ => showing_nameFits target.labels) hf'
      exact hkeeps (he f hf)
    refine ⟨?_, ?_⟩
    · refine Model.All.changeEntity (Model.All.changeEntity hm.entities ?_) ?_
      all_goals exact fun _ _ h => h
    refine hshown.changeEntity fun e _ he f' hf' => ?_
    obtain ⟨f, hf, hkeeps⟩ := exists_of_forall₂_right (forall₂_modify
      (R := fun f f' : Field => f.Fits limit → f'.Fits limit) (fun _ => id)
      fun f _ => through_nameFits hown hremote) hf'
    exact hkeeps (he f hf)
  | @made e f target link new _ howns hfield htype hname hmake hadd =>
    have hlink : ∀ id ∈ link.names, id.length ≤ limit :=
      (hm.fields e (Model.entity?_mem howns) f (List.mem_of_getElem? hfield)).2 link
        (by rw [htype]; rfl)
    refine ⟨hm.entities.addEntity ?_ hadd, hm.fields.addEntity (make_fits hlimit hlink hmake) hadd⟩
    rw [make_name hmake]
    exact hlink site.link (mem_names.mpr (.inl hname))

theorem synthesize_fits (hlimit : dialect.limit? = some limit)
    (h : Ends (synthesize dialect) m made m') (hm : m.NamesFit limit) : m'.NamesFit limit :=
  synthesize_rel (fun _ m m' => m.NamesFit limit → m'.NamesFit limit) (fun _ => id)
    (fun h₁ h₂ hm => h₂ (h₁ hm)) (fun hbacked => hbacked.fits hlimit) h hm

end Link

/-! ### From pass to pass -/

namespace Pass

variable {warnings : List Warning}

theorem completeKeys_linksFit (hlimit : options.dialect.limit? = some limit)
    (hnodup : m.entityNames.Nodup) (hm : LinksFit limit m)
    (h : Ends (completeKeys options) m warnings m') : LinksFit limit m' := by
  obtain ⟨m₁, m₂, m₃, hkeys, hdiscriminates, -, hlabels, hrelocate⟩ := completeKeys_steps h
  have hgains := (Hierarchy.propagateKeys_ok hkeys).2
  have hnodup₁ := hgains.nodup Entity.isChange_gains hnodup
  -- neither a copy of a key nor a discriminator is many-to-many
  have hcopy : Hierarchy.CopiesKeep (Field.LinkFits limit) := fun _ _ _ _ _ _ h => by cases h
  have hlinks₂ := hdiscriminates.fields hnodup₁ (fun _ _ _ _ h => by cases h)
    (Hierarchy.propagateKeys_fields hcopy hm.links hkeys)
  have hrelabels := Keys.assignLabels_relabels hlabels
  have hstanding : Evolves Entity.SameStanding [] m m₃ :=
    (hgains.mono fun _ _ h => h.sameStanding).trans_nil isChange_sameStanding
      ((hdiscriminates.standing hnodup₁).trans_nil isChange_sameStanding
        (hrelabels.mono fun _ _ h => h.sameStanding))
  refine Link.relocate_fits hlimit hrelocate ⟨?_, ?_⟩
  · exact hm.entities.evolves hstanding fun _ _ h he => h.name ▸ he
  · refine Model.All.evolves hlinks₂ hrelabels fun e e' h he => ?_
    rwa [h.fields]

/-- Links are left as they are while references are completed. -/
theorem completeReferences_linkFits (hm : m.AllFields (Field.LinkFits limit))
    (h : Ends completeReferences m () m') : m'.AllFields (Field.LinkFits limit) := by
  have hheading : ∀ {m m' : Model}, Evolves (SameBy Field.heading) [] m m' →
      m.AllFields (Field.LinkFits limit) → m'.AllFields (Field.LinkFits limit) := by
    intro m m' h hm
    refine Model.All.evolves hm h fun e e' h he f' hf' => ?_
    obtain ⟨f, hf, hsame⟩ := exists_of_forall₂_right (SameBy.forall₂ h) hf'
    exact (he f hf).heading (congrArg Field.type hsame :)
  obtain ⟨m₁, m₂, m₃, hfirst, hcase, hsecond, heq⟩ := completeReferences_steps h
  have hm₁ := hheading (Reference.resolveEntities_heading hfirst.get_bind) hm
  have hm₂ : m₂.AllFields (Field.LinkFits limit) := by
    rw [FieldCase.correct_ok hcase]
    intro e' he' f' hf'
    obtain ⟨e, he, rfl⟩ := List.mem_map.mp he'
    obtain ⟨f, hf, rfl⟩ := List.mem_map.mp hf'
    exact (hm₁ e he f hf).heading (congrArg Field.type (FieldCase.heading_corrected f) :)
  exact (hheading (Reference.resolveEntities_heading hsecond.get_bind) hm₂).of_eq heq

/-- References lead to entities, whose names fit; so what links say fits in any case. -/
theorem completeReferences_namesFit (hm : LinksFit limit m)
    (hbrief : m.AllFields fun f => Brief limit f.name) (hnodup : m.entityNames.Nodup)
    (h : Ends completeReferences m () m') : m'.NamesFit limit := by
  have hentities : m'.All fun e => e.name.length ≤ limit :=
    hm.entities.evolves (completeReferences_standing h) fun _ _ h he => h.name ▸ he
  have hnames : m'.AllFields fun f => f.name.length ≤ limit := by
    refine completeReferences_fields (fun f f' h hf => ?_) (fun f f' h hf => ?_) hbrief h
    · exact Field.name_of_outline h ▸ hf
    · rw [Field.name_of_outline h]
      exact hf.lower
  have hlinks := completeReferences_linkFits hm.links h
  obtain ⟨-, hintact⟩ := completeReferences_intact hnodup h
  refine ⟨hentities, fun e he f hf => ⟨hnames e he f hf, fun link hlink name hname => ?_⟩⟩
  obtain ⟨target, htype⟩ : ∃ target, f.type = .mref target link := by
    cases htype : f.type <;> simp_all [FieldType.link?]
  rcases hlinks e he f hf target link htype name hname with hshort | rfl
  · exact hshort
  · obtain ⟨⟨entity, hentity, -⟩, -⟩ :=
      hintact e he f hf target (by rw [Field.target?, htype]; rfl)
    exact Model.entity?_name hentity ▸ hentities entity (Model.entity?_mem hentity)

/-- Up to the entities of links, everything fits. -/
theorem completeLinks_namesFit (hlimit : dialect.limit? = some limit) (hm : m.NamesFit limit)
    (h : Ends (completeLinks dialect) m () m') :
    (m'.All fun e => e.name.length ≤ limit) ∧ m'.AllFields fun f => f.name.length ≤ limit := by
  obtain ⟨made, m₁, hmade, hresolve⟩ := completeLinks_steps h
  have hm₁ := Link.synthesize_fits hlimit hmade hm
  have hout := Reference.resolveEntities_outline hresolve
  refine ⟨hm₁.entities.evolves hout fun _ _ h he => h.sameStanding.name ▸ he, ?_⟩
  exact Model.AllFields.outline (fun _ _ h hf => Field.name_of_outline h ▸ hf)
    (hm₁.fields.imp fun _ he f hf => (he f hf).1) hout

/-- What is made for links stands apart from the hierarchy. -/
theorem completeLinks_hierarchy (hm : m.Ordered) (h : Ends (completeLinks dialect) m () m') :
    m'.Closed ∧ ∀ root, m'.isRoot root = true ↔ m.isRoot root = true := by
  obtain ⟨made, hlinked, hroots, hmade⟩ := completeLinks_made hm h
  have hnodup := hlinked.nodup isChange_sameOutline hm.names
  have hcases : ∀ e' ∈ m'.entities, (∃ e ∈ m.entities, SameOutline e e') ∨
      e'.parents = [] ∧ e'.implements = [] := by
    intro e' he'
    refine (hlinked.mem he').imp_right fun hnew => ?_
    obtain ⟨x, hx, ⟨j, hj, hsame⟩, -⟩ := hmade e'.name hnew
    obtain rfl : x = e' := Option.some.inj (hx.symm.trans (Model.entity?_of_mem hnodup he'))
    exact ⟨hsame.sameStanding.parents.trans hj.apart.1,
      hsame.sameStanding.implements.trans hj.apart.2⟩
  have hforward : ∀ {a e}, m.entity? a = some e → ∃ e', m'.entity? a = some e' ∧
      SameStanding e e' := fun he =>
    (hlinked.entity? isChange_sameOutline he).imp fun _ => .imp_right (·.sameStanding)
  have hback : ∀ {a e'}, a ∈ m.entityNames → m'.entity? a = some e' → ∃ e, m.entity? a = some e ∧
      SameStanding e' e := by
    intro a e' ha he'
    obtain ⟨e, he⟩ := Model.mem_entityNames.mp ha
    obtain ⟨x, hx, hsame⟩ := hforward he
    obtain rfl : x = e' := Option.some.inj (hx.symm.trans he')
    exact ⟨e, he, hsame.name.symm, hsame.isAbstract.symm, hsame.parents.symm,
      hsame.implements.symm⟩
  refine ⟨fun e' he' b hb => ?_, fun root => ⟨fun hroot => ?_, fun hroot => ?_⟩⟩
  · rcases hcases e' he' with ⟨e, he, hsame⟩ | ⟨hparents, himplements⟩
    · rw [hsame.sameStanding.parents, hsame.sameStanding.implements] at hb
      rw [hlinked.entityNames isChange_sameOutline]
      exact List.mem_append_left _ (hm.closed e he b hb)
    · rw [hparents, himplements] at hb
      cases hb
  · refine Model.isRoot_mono (fun a b hab => ?_) (fun he => hback (hroots root hroot) he) hroot
    obtain ⟨e', he', hb⟩ := Model.mem_linksOf.mp hab
    rcases hcases e' (Model.entity?_mem he') with ⟨e, he, hsame⟩ | ⟨hnone, -⟩
    · have hfound := Model.entity?_of_mem hm.names he
      rw [← hsame.sameStanding.name, Model.entity?_name he'] at hfound
      exact Model.mem_linksOf.mpr ⟨e, hfound, hsame.sameStanding.parents ▸ hb⟩
    · rw [hnone] at hb
      cases hb
  · refine Model.isRoot_mono (fun a b hab => ?_) hforward hroot
    obtain ⟨e, he, hb⟩ := Model.mem_linksOf.mp hab
    obtain ⟨e', he', hsame⟩ := hforward he
    exact Model.mem_linksOf.mpr ⟨e', he', hsame.parents ▸ hb⟩

/-! ### Before the check -/

/-- What is done for tables before lengths are checked. -/
def prepareTables (options : Options) : Pass Unit := do
  change Reference.propagateLabels
  change Hierarchy.propagateDecorators
  if options.mapping = .classPerTable then Hierarchy.addIdentities
  Hierarchy.copyKeyFields

/-- All that is done before lengths are checked; the result holds the warnings. -/
def prepare (options : Options) : Pass (List Warning) := do
  completeNames options.dialect
  let warnings ← completeKeys options
  completeReferences
  completeLinks options.dialect
  prepareTables options
  pure warnings

theorem completeTables_eq : completeTables options = (prepareTables options >>= fun _ =>
    check fun m => (Identifier.checkSizes options.dialect m).mapError .identifier) := by
  unfold completeTables prepareTables
  split <;> simp

/-- Without a limit, tables that are prepared are complete. -/
theorem prepareTables_completes (h : Ends (prepareTables options) m () m') :
    Ends (completeTables { options with dialect := .generic }) m () m' := by
  have hsame : prepareTables { options with dialect := .generic } = prepareTables options := rfl
  rw [completeTables_eq, hsame]
  unfold Ends at h ⊢
  rw [run_bind, h]
  rfl

/-- The parts of a preparation, each run on what the one before it left. -/
theorem prepare_steps (h : Ends (prepare options) m warnings m') : ∃ m₁ m₂ m₃ m₄,
    Ends (completeNames options.dialect) m () m₁ ∧ Ends (completeKeys options) m₁ warnings m₂ ∧
      Ends completeReferences m₂ () m₃ ∧ Ends (completeLinks options.dialect) m₃ () m₄ ∧
      Ends (prepareTables options) m₄ () m' := by
  obtain ⟨_, m₁, hnames, h⟩ := h.bind
  obtain ⟨found, m₂, hkeys, h⟩ := h.bind
  obtain ⟨_, m₃, hreferences, h⟩ := h.bind
  obtain ⟨_, m₄, hlinks, h⟩ := h.bind
  obtain ⟨_, m₅, htables, h⟩ := h.bind
  obtain ⟨rfl, rfl⟩ := h.pure
  exact ⟨m₁, m₂, m₃, m₄, hnames, hkeys, hreferences, hlinks, htables⟩

theorem mem_identified {root : String} : root ∈ identified options m ↔
    options.mapping = .classPerTable ∧ m.isRoot root = true := by
  unfold identified
  split
  · next hmapping =>
    rw [List.mem_filter, and_iff_right hmapping, and_iff_right_iff_imp]
    intro hroot
    obtain ⟨e, he, -⟩ := Model.isRoot_iff.mp hroot
    exact Model.mem_entityNames.mpr ⟨e, he⟩
  · next hmapping => simp [hmapping]

/-- When lengths are checked, names of fields fit, and the only entities whose names need
not fit are the identity roots above the roots. -/
theorem prepare_names (hlimit : options.dialect.limit? = some limit) (hm : m.Distinct)
    (hbrief : ∀ name ∈ m.names, Brief limit name) (h : Ends (prepare options) m warnings m') :
    (m'.AllFields fun f => f.name.length ≤ limit) ∧
      (∀ name ∈ m'.entityNames, name.length ≤ limit ∨
        ∃ root ∈ identified options m, name = identityName root) ∧
      ∀ root ∈ identified options m, identityName root ∈ m'.entityNames := by
  obtain ⟨m₁, m₂, m₃, m₄, hnames, hkeys, hreferences, hlinks, htables⟩ := prepare_steps h
  have hroom := Identifier.digestLength_lt hlimit
  have hbrief₅ : Brief 5 Hierarchy.discriminatorName := by decide
  have hdiscriminator : Brief limit Hierarchy.discriminatorName :=
    ⟨hbrief₅.1, Nat.le_trans hbrief₅.2 (Nat.le_of_lt hroom)⟩
  have houtline := Link.assignNames_outline (completeNames_steps hnames)
  have hnodup₁ := houtline.nodup isChange_sameOutline hm.names
  have hordered := completeReferences_ordered hm hnames hkeys hreferences
  -- names that documents give
  have hentities : m.All fun e => Brief limit e.name := fun e he =>
    hbrief _ (List.mem_flatMap.mpr ⟨e, he, List.mem_cons_self⟩)
  have hfields : ∀ e ∈ m.entities, ∀ f ∈ e.fields, ∀ name ∈ f.name ::
      (f.type.link?.map Link.names).getD [], Brief limit name := fun e he f hf name hname =>
    hbrief name (List.mem_flatMap.mpr
      ⟨e, he, List.mem_cons_of_mem _ (List.mem_flatMap.mpr ⟨f, hf, hname⟩)⟩)
  have hfit : LinksFit limit m := by
    refine ⟨hentities.imp fun _ h => h.2, fun e he f hf target link htype name hname => ?_⟩
    refine .inl (hfields e he f hf name (List.mem_cons_of_mem _ ?_)).2
    rw [htype]
    exact hname
  -- and those of the passes
  have hbrief₁ : m₁.AllFields fun f => Brief limit f.name :=
    Model.AllFields.outline (fun _ _ h hf => Field.name_of_outline h ▸ hf)
      (fun e he f hf => hfields e he f hf _ List.mem_cons_self) houtline
  have hbrief₂ := completeKeys_fields hnodup₁ (fun _ _ _ h => h) (fun _ _ => hdiscriminator)
    (fun _ _ _ h => h) hbrief₁ hkeys
  have hfit₂ := completeKeys_linksFit hlimit hnodup₁
    (Link.assignNames_fits hlimit (completeNames_steps hnames) hfit) hkeys
  have hnodup₂ := (completeKeys_standing hnodup₁ hkeys).nodup isChange_sameStanding hnodup₁
  obtain ⟨hentities₄, hfields₄⟩ := completeLinks_namesFit hlimit
    (completeReferences_namesFit hfit₂ hbrief₂ hnodup₂ hreferences) hlinks
  obtain ⟨hclosed₄, hroots₄⟩ := completeLinks_hierarchy hordered hlinks
  obtain ⟨hadded, hencloses⟩ := completeTables_encloses (hclosed₄.encloses hfields₄)
    (fun _ _ h hf => Field.name_of_outline h ▸ hf) (fun _ h => h)
    (fun _ _ _ _ => hdiscriminator.2) (prepareTables_completes htables)
  have hsame : ∀ root, root ∈ identified options m₄ ↔ root ∈ identified options m := by
    intro root
    rw [mem_identified, mem_identified, hroots₄,
      Model.isRoot_standing (complete_standing hm.names hnames hkeys hreferences)]
  have hidentified : identified { options with dialect := .generic } m₄ =
      identified options m₄ := rfl
  rw [hidentified] at hadded hencloses
  refine ⟨fun e he => ?_, fun name hname => ?_, fun root hroot => ?_⟩
  · refine hencloses.fields e he ?_
    have hname : e.name ∈ m'.entityNames := List.mem_map_of_mem he
    rw [hadded, List.mem_append, List.mem_map] at hname
    refine hname.imp_right fun ⟨root, hroot, heq⟩ => ⟨root, hroot, ?_, heq.symm⟩
    obtain ⟨_, hroot⟩ := mem_identified.mp hroot
    obtain ⟨e, he, -⟩ := Model.isRoot_iff.mp hroot
    exact Model.mem_entityNames.mpr ⟨e, he⟩
  · rw [hadded, List.mem_append, List.mem_map] at hname
    rcases hname with hname | ⟨root, hroot, rfl⟩
    · obtain ⟨e, he, rfl⟩ := List.mem_map.mp hname
      exact .inl (hentities₄ e he)
    · exact .inr ⟨root, (hsame root).mp hroot, rfl⟩
  · rw [hadded]
    exact List.mem_append_right _ (List.mem_map_of_mem ((hsame root).mpr hroot))

end Pass

namespace Identifier

/-- The check of lengths finds nothing exactly when all names fit. -/
theorem checkSizes_ok_iff (hlimit : dialect.limit? = some limit) :
    checkSizes dialect m = .ok () ↔
      m.All fun e => e.name.length ≤ limit ∧ ∀ f ∈ e.fields, f.name.length ≤ limit := by
  constructor
  · intro h e he
    obtain ⟨hname, hfields⟩ := checkSizes_ok h e he
    exact ⟨hname limit hlimit, fun f hf => hfields f hf limit hlimit⟩
  · intro h
    unfold checkSizes
    rw [hlimit]
    refine Except.forM_ok_iff.mpr fun e he => ?_
    obtain ⟨hname, hfields⟩ := h e he
    unfold checkLengths
    rw [if_neg (Nat.not_lt.mpr hname)]
    refine Except.forM_ok_iff.mpr fun f hf => ?_
    rw [if_neg (Nat.not_lt.mpr (hfields f hf))]
    rfl

end Identifier

theorem Hierarchy.identityName_length (root : String) :
    (identityName root).length = root.length + 10 := by
  have hname : identityName root = "_" ++ root ++ "Interface" := rfl
  have hlengths : "_".length = 1 ∧ "Interface".length = 9 := by decide
  rw [hname, String.length_append, String.length_append, hlengths.1, hlengths.2]
  omega

/-! ### Models that are read -/

/-- Where documents give short names, all names that are made up fit the limit when lengths
are checked, but for those of identity roots. These are not cut; so the check finds nothing
exactly when the names of all roots that get one leave room for what is put around them. -/
theorem prepared_names_fit {schemas : List String} {warnings : List Warning}
    (hlimit : options.dialect.limit? = some limit)
    (hdeclared : Compilation.declared options schemas = .ok m)
    (hbrief : ∀ name ∈ m.names, Brief limit name)
    (h : Ends (Pass.prepare options) m warnings m') :
    (∀ e ∈ m'.entities, (∀ f ∈ e.fields, f.name.length ≤ limit) ∧ (e.name.length ≤ limit ∨
      options.mapping = .classPerTable ∧ ∃ root, m.isRoot root = true ∧
        e.name = identityName root)) ∧
    (Identifier.checkSizes options.dialect m' = .ok () ↔
      (options.mapping = .classPerTable → ∀ root, m.isRoot root = true →
        root.length + 10 ≤ limit)) := by
  have hm := (Compilation.declared_asRead hdeclared).distinct
  obtain ⟨hfields, hentities, hroots⟩ := Pass.prepare_names hlimit hm hbrief h
  refine ⟨fun e he => ⟨hfields e he, ?_⟩, ?_⟩
  · refine (hentities e.name (List.mem_map_of_mem he)).imp_right fun ⟨root, hroot, hname⟩ => ?_
    obtain ⟨hmapping, hroot⟩ := Pass.mem_identified.mp hroot
    exact ⟨hmapping, root, hroot, hname⟩
  · rw [Identifier.checkSizes_ok_iff hlimit]
    constructor
    · intro hall hmapping root hroot
      obtain ⟨e, he, hname⟩ := List.mem_map.mp
        (hroots root (Pass.mem_identified.mpr ⟨hmapping, hroot⟩))
      rw [← Hierarchy.identityName_length, ← hname]
      exact (hall e he).1
    · intro hall e he
      refine ⟨?_, hfields e he⟩
      rcases hentities e.name (List.mem_map_of_mem he) with hshort | ⟨root, hroot, hname⟩
      · exact hshort
      · obtain ⟨hmapping, hroot⟩ := Pass.mem_identified.mp hroot
        rw [hname, Hierarchy.identityName_length]
        exact hall hmapping root hroot

/-- Protocols with a name of 21 characters, and screenings, which are such. -/
def protocols : String :=
  "<m><entity name='ExperimentalProtocols'><field name='id' type='autoid'/></entity>" ++
  "<entity name='Screening' extends='ExperimentalProtocols'/></m>"

/-- Names have at most 30 characters, and hierarchies get identity roots. -/
def identified30 : Options := { dialect := .oracle, mapping := .classPerTable }

theorem protocols_run : ∃ m m' warnings, Compilation.declared identified30 [protocols] = .ok m ∧
    (∀ name ∈ m.names, Brief 30 name) ∧ Ends (Pass.prepare identified30) m warnings m' ∧
    m.isRoot "ExperimentalProtocols" = true ∧ ∃ e ∈ m'.entities, 30 < e.name.length := by
  have hrun : (Compilation.declared identified30 [protocols]).toOption.any (fun m =>
      (∀ name ∈ m.names, Brief 30 name) ∧ m.isRoot "ExperimentalProtocols" = true ∧
        ((Pass.prepare identified30).run m).1.toBool = true ∧
        ∃ e ∈ ((Pass.prepare identified30).run m).2.entities, 30 < e.name.length) = true := by
    decide +kernel
  obtain ⟨m, hdeclared, hrun⟩ := Except.exists_ok_and hrun
  obtain ⟨hbrief, hroot, hprepared, hlong⟩ := of_decide_eq_true hrun
  obtain ⟨warnings, hwarnings⟩ := Except.exists_ok hprepared
  exact ⟨m, _, warnings, hdeclared, hbrief, Prod.ext hwarnings rfl, hroot, hlong⟩

theorem protocols_refused : ∃ m m' warnings,
    Compilation.declared identified30 [protocols] = .ok m ∧
    (∀ name ∈ m.names, Brief 30 name) ∧ Ends (Pass.prepare identified30) m warnings m' ∧
    (∀ e ∈ m'.entities, ∀ f ∈ e.fields, f.name.length ≤ 30) ∧
    Identifier.checkSizes .oracle m' ≠ .ok () := by
  obtain ⟨m, m', warnings, hdeclared, hbrief, hrun, hroot, -⟩ := protocols_run
  obtain ⟨hnames, hcheck⟩ := prepared_names_fit rfl hdeclared hbrief hrun
  refine ⟨m, m', warnings, hdeclared, hbrief, hrun, fun e he => (hnames e he).1, fun hok => ?_⟩
  exact absurd (hcheck.mp hok rfl _ hroot) (by decide)

/-- An identity root can have a name that is too long, though no name is that a document gives. -/
theorem prepared_names_not_all_fit : ¬∀ (options : Options) (schemas : List String)
    (m m' : Model) (warnings : List Warning) (limit : Nat),
    options.dialect.limit? = some limit → Compilation.declared options schemas = .ok m →
    (∀ name ∈ m.names, Brief limit name) → Ends (Pass.prepare options) m warnings m' →
    ∀ e ∈ m'.entities, e.name.length ≤ limit ∧ ∀ f ∈ e.fields, f.name.length ≤ limit := by
  intro hall
  obtain ⟨m, m', warnings, hdeclared, hbrief, hrun, -, e, he, hlong⟩ := protocols_run
  exact Nat.not_le.mpr hlong (hall _ _ m m' warnings 30 rfl hdeclared hbrief hrun e he).1

end EntitySchema
