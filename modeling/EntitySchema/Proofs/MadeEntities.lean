import EntitySchema.Proofs.Enclosure
import EntitySchema.Proofs.FieldSources
import EntitySchema.Proofs.JoinEntities

/-! Link entities that are made. They stand apart from the hierarchy, so that what is
visible on them is what they own, and what was enclosed before is enclosed when they
have joined the model. -/

namespace EntitySchema

open Model (Evolves Encloses)
open Entity (IsChange SameFrame SameOutline isChange_grows isChange_sameFrame isChange_sameOutline)

variable {m m' : Model} {e j : Entity} {f : Field} {kind : Field → Prop} {dialect : Dialect}
  {made : List String} {name : String}

/-! ### What they are -/

namespace Link

variable {rounds : List Site}

theorem make_eq {owner new : Entity} {field : String} {target : Target} {link : Link}
    (h : make m dialect owner field target link name = .ok new) :
    ∃ columns : List Field, (∀ c ∈ columns, ∃ name target, c = column name target) ∧
      new = { plainEntity owner field name with
        fields := keyField :: columns
        keys := [{ fields := [keyName] }, { fields := columns.map (·.name) }] } := by
  obtain ⟨localId, remoteId, -, -, -, hcolumns⟩ := make_ok h
  refine ⟨(m.primaryKeyFields owner.name).map (ownerColumn dialect owner.name localId
    (1 < (m.primaryKeyFields owner.name).length)) ++ [column remoteId target], fun c hc => ?_,
    withColumns_ok hcolumns⟩
  rcases List.mem_append.mp hc with hc | hc
  · obtain ⟨key, -, rfl⟩ := List.mem_map.mp hc
    exact ⟨_, _, rfl⟩
  · exact ⟨_, _, List.mem_singleton.mp hc⟩

/-- The entity is one that was made under this name, up to labels of columns. -/
def MadeAs (name : String) (j : Entity) : Prop :=
  ∃ (m : Model) (dialect : Dialect) (owner : Entity) (field : String) (target : Target)
    (link : Link) (new : Entity),
    make m dialect owner field target link name = .ok new ∧ SameFrame new j

/-- It is no part of a hierarchy. -/
theorem MadeAs.apart (h : MadeAs name j) : j.parents = [] ∧ j.implements = [] := by
  obtain ⟨_, _, _, _, _, _, _, hmake, hsame⟩ := h
  obtain ⟨columns, -, rfl⟩ := make_eq hmake
  exact ⟨(congrArg Entity.parents hsame.2 :), (congrArg Entity.implements hsame.2 :)⟩

theorem Rounds.made_entity (h : Rounds dialect rounds m made m') (hm : m.DistinctFields) :
    ∀ name ∈ made, ∃ j, m'.entity? name = some j ∧ MadeAs name j := by
  induction h with
  | done => simp
  | @round site rest first others m m₁ m' backed hrest ih =>
    have hm₁ := (backed.frame hm).2
    intro name hname
    rcases List.mem_append.mp hname with hname | hname
    · cases backed with
      | reused => cases hname
      | made _ _ _ _ hmake hadd =>
        obtain rfl := List.mem_singleton.mp hname
        have hfound := make_name hmake ▸ Model.entity?_addEntity hadd
        obtain ⟨j, hj, hsame⟩ := (hrest.frame hm₁).1.entity? isChange_sameFrame hfound
        exact ⟨j, hj, _, _, _, _, _, _, _, hmake, hsame⟩
    · exact ih hm₁ name hname

/-- Every entity that is made is made for a site. -/
theorem Rounds.made_site (h : Rounds dialect (sites m) m made m') (hm : m.DistinctFields)
    (hname : name ∈ made) : ∃ site ∈ sites m, Makes m site ∧ site.link = name := by
  rw [h.made_eq hm, List.mem_eraseDups, List.mem_filter, List.mem_map] at hname
  obtain ⟨⟨first, hfirst, rfl⟩, hnew⟩ := hname
  obtain ⟨site, hsite⟩ : ∃ site, (sites m).find? (·.link = first.link) = some site :=
    Option.isSome_iff_exists.mp (List.find?_isSome.mpr ⟨first, hfirst, by simp⟩)
  have hlink : site.link = first.link := by simpa using List.find?_some hsite
  exact ⟨site, List.mem_of_find?_eq_some hsite,
    ⟨by simpa [hlink] using hnew, by simpa [hlink] using hsite⟩, hlink⟩

/-- The field at the site of an entity. -/
theorem mem_sites {site : Site} (hnodup : m.entityNames.Nodup) (h : site ∈ sites m) :
    ∃ e ∈ m.entities, e.name = site.owner ∧ e.isAbstract = false ∧
      ∃ f target link, m.FieldAt site.owner site.index f ∧ f.type = .mref target link := by
  obtain ⟨e, he, hsite⟩ := List.mem_flatMap.mp h
  unfold sitesOf at hsite
  split at hsite
  · cases hsite
  · next hconcrete =>
    obtain ⟨index, -, hsite⟩ := List.mem_filterMap.mp hsite
    obtain ⟨link, hlink, rfl⟩ := Option.map_eq_some_iff.mp hsite
    obtain ⟨l, hl, -⟩ := Option.bind_eq_some_iff.mp hlink
    obtain ⟨f, hf, hl⟩ := Option.bind_eq_some_iff.mp hl
    obtain ⟨target, htype⟩ : ∃ target, f.type = .mref target l := by
      cases htype : f.type <;> simp_all [FieldType.link?]
    exact ⟨e, he, rfl, by simpa using hconcrete, f, target, l,
      ⟨e, Model.entity?_of_mem hnodup he, hf⟩, htype⟩

end Link

/-! ### What is enclosed -/

/-- An entity that stands alone is closed upwards. -/
theorem Model.Encloses.alone (hnodup : m.entityNames.Nodup) (he : m.entity? name = some e)
    (hparents : e.parents = []) (himplements : e.implements = [])
    (hfields : ∀ f ∈ e.fields, kind f) : m.Encloses (· = name) kind := by
  have hsame : ∀ x ∈ m.entities, x.name = name → x = e := fun x hx hname => by
    have hx := entity?_of_mem hnodup hx
    rw [hname, he] at hx
    exact (Option.some.inj hx).symm
  refine ⟨fun hname => mem_entityNames.mpr ⟨e, hname ▸ he⟩, fun x hx hname => ?_,
    fun x hx hname => ?_⟩
  · rw [hsame x hx hname, hparents, himplements]
    simp
  · exact hsame x hx hname ▸ hfields

/-- What an entity inherits from is closed upwards. -/
theorem Model.Layered.encloses (hm : m.Layered) (hclosed : m.Closed)
    (hnodup : m.entityNames.Nodup) (hname : name ∈ m.entityNames)
    (hfields : ∀ e ∈ m.lineage name, ∀ f ∈ e.fields, kind f) :
    m.Encloses (m.Inherits name) kind := by
  refine ⟨fun hinherits => ?_, fun e he hinherits b hb => ?_, fun e he hinherits => ?_⟩
  · have hall : m.Encloses (· ∈ m.entityNames) fun _ => True :=
      hclosed.encloses fun _ _ _ _ => trivial
    exact hall.inherits hname hinherits
  · refine hinherits.trans hm ?_
    have he := entity?_of_mem hnodup he
    rcases List.mem_append.mp hb with hb | hb
    · exact ⟨b, .single (mem_linksOf.mpr ⟨e, he, hb⟩), .refl⟩
    · exact ⟨e.name, .refl, .single (mem_linksOf.mpr ⟨e, he, hb⟩)⟩
  · exact hfields e (mem_lineage.mpr ⟨entity?_of_mem hnodup he, hinherits⟩)

/-- Roots are inside when whatever is outside extends nothing. -/
theorem Model.Encloses.root {inside : String → Prop} (hm : m.Encloses inside kind)
    (houtside : ∀ e ∈ m.entities, inside e.name ∨ e.parents = [])
    (h : m.isRoot name = true) : inside name := by
  obtain ⟨_, -, -, -, _, -, -, hpath⟩ := isRoot_iff.mp h
  obtain ⟨c, -, hstep⟩ := Relation.TransGen.tail'_iff.mp hpath
  obtain ⟨e, he, hparent⟩ := mem_linksOf.mp hstep
  rcases houtside e (entity?_mem he) with hinside | hnone
  · exact hm.links e (entity?_mem he) hinside name (List.mem_append_left _ hparent)
  · rw [hnone] at hparent
    cases hparent

/-! ### Links that are kept -/

namespace Entity

/-- The entity grows, and the links of its fields stay as they are. -/
structure KeepsLinks (e e' : Entity) : Prop extends Grows e e' where
  links : e.fields.map (·.type.link?) ⊆ e'.fields.map (·.type.link?)

theorem isChange_keepsLinks : IsChange KeepsLinks where
  refl e := { isChange_grows.refl e with links := List.Subset.refl _ }
  trans h₁ h₂ := { isChange_grows.trans h₁.toGrows h₂.toGrows with
    links := List.Subset.trans h₁.links h₂.links }
  name h := h.name

theorem Adds.keepsLinks {e e' : Entity} (h : Adds e e') : KeepsLinks e e' :=
  { h.toGrows with links := List.map_subset _ h.own.subset }

/-- Only what references point at is changed. -/
theorem KeepsLinks.of_forall₂ {fields : List Field}
    (h : List.Forall₂ (fun f f' => f'.outline = f.outline ∧ f'.type.link? = f.type.link?)
      e.fields fields) : KeepsLinks e { e with fields } :=
  { (SameOutline.of_forall₂ (h.imp fun _ _ h => h.1)).grows with
    links := by
      rw [map_eq_of_forall₂ (R := fun f f' : Field => f'.outline = f.outline ∧
        f'.type.link? = f.type.link?) (fun _ _ h => h.2) h]
      exact List.Subset.refl _ }

end Entity

open Entity (KeepsLinks isChange_keepsLinks)

namespace Reference

theorem link?_withTarget (type : FieldType) (target : Target) :
    (type.withTarget target).link? = type.link? := by
  cases type <;> rfl

theorem link?_mapTarget (type : FieldType) (change : Target → Target) :
    (type.mapTarget change).link? = type.link? := by
  cases type <;> rfl

theorem resolveField_link {f' : Field} (h : resolveField m e f = .ok f') :
    f'.type.link? = f.type.link? := by
  unfold resolveField at h
  split at h
  · obtain ⟨target, -, h⟩ := Except.bind_ok h
    cases h
    exact link?_withTarget f.type target
  · cases h
    rfl

theorem resolveEntities_links {names : List String} {u : Unit}
    (h : Ends (resolveEntities names) m u m') : Evolves KeepsLinks [] m m' := by
  refine .forM isChange_keepsLinks (fun _ _ m m' hstep => ?_) h
  refine Evolves.tryEntity isChange_keepsLinks (Pass.step_ends hstep) fun e e' _ he => ?_
  obtain ⟨fields, hfields, he⟩ := Except.bind_ok he
  cases he
  exact KeepsLinks.of_forall₂ ((Except.mapM_ok (Except.mapError_ok hfields)).imp
    fun _ _ h => ⟨(resolveField_ok h).1, resolveField_link h⟩)

theorem propagateLabels_links (m : Model) : Evolves KeepsLinks [] m (propagateLabels m) := by
  refine .map rfl fun e _ => KeepsLinks.of_forall₂ ?_
  rw [List.forall₂_map_right_iff]
  refine List.forall₂_same.mpr fun f _ => ⟨?_, link?_mapTarget f.type _⟩
  rcases f with ⟨_, _, type⟩
  cases type <;> rfl

end Reference

namespace Pass

theorem completeTables_links {options : Options} (hnodup : m.entityNames.Nodup)
    (h : Ends (completeTables options) m () m') : ∃ added, Evolves KeepsLinks added m m' := by
  obtain ⟨added, hadds⟩ := (completeTables_extension hnodup h).adds
  exact ⟨added, (Reference.propagateLabels_links m).trans isChange_keepsLinks
    (hadds.mono fun _ _ h => h.keepsLinks)⟩

end Pass

/-! ### Links that name them -/

/-- A many-to-many field of an entity with a table has this entity for its link, and its
columns are called as the link says. -/
def Model.LinkedBy (m : Model) (dialect : Dialect) (name : String) (columns : List String) : Prop :=
  ∃ owner ∈ m.entities, owner.isAbstract = false ∧ ∃ f ∈ owner.fields, ∃ localId remoteId keys,
    f.type.link? = some { name := some name, localId := some localId, remoteId := some remoteId } ∧
    (∀ key ∈ keys, m.Keyed owner.name key) ∧
    columns = Link.keyName :: Link.ownerColumns dialect localId keys ++ [remoteId]

theorem Model.LinkedBy.evolves {added columns : List String} (h : m.LinkedBy dialect name columns)
    (hm : Evolves KeepsLinks added m m') : m'.LinkedBy dialect name columns := by
  obtain ⟨owner, howner, hconcrete, f, hf, localId, remoteId, keys, hlink, hkeys, hcolumns⟩ := h
  obtain ⟨owner', howner', hsame⟩ := hm.kept howner
  obtain ⟨f', hf', hlink'⟩ := List.mem_map.mp (hsame.links (List.mem_map_of_mem hf))
  refine ⟨owner', howner', hsame.isAbstract.trans hconcrete, f', hf', localId, remoteId, keys,
    hlink'.trans hlink, fun key hkey => ?_, hcolumns⟩
  exact hsame.name ▸ (hkeys key hkey).grows (hm.mono fun _ _ h => h.toGrows)

theorem Link.synthesize_linked (hnodup : m.entityNames.Nodup) (hm : m.DistinctFields)
    (hclosed : m.Closed) (h : Ends (synthesize dialect) m made m') (hname : name ∈ made)
    (hj : m'.entity? name = some j) : m'.LinkedBy dialect name (j.fields.map (·.name)) := by
  obtain ⟨hrounds, -⟩ := synthesize_rounds hnodup hm h
  obtain ⟨site, hsite, hmakes, rfl⟩ := hrounds.made_site hm hname
  obtain ⟨e, he, hsame, hconcrete, f, target, link, hf, htype⟩ := mem_sites hnodup hsite
  obtain ⟨localId, remoteId, j', hjoined, -, hmade⟩ := hrounds.joins hnodup hm hsite hf htype
  obtain ⟨keys, hkey, hmade⟩ := hmade hmakes
  have hfound := hjoined.found
  rw [hj] at hfound
  cases hfound
  obtain ⟨owner, howner, hfield⟩ := hjoined.field
  have hevolves := (hrounds.frame hm).1
  obtain ⟨owner', howner', hframe⟩ :=
    hevolves.entity? isChange_sameFrame (hsame ▸ Model.entity?_of_mem hnodup he)
  rw [howner] at howner'
  cases howner'
  refine ⟨owner, Model.entity?_mem howner, ?_, _, List.mem_of_getElem? hfield, localId, remoteId,
    keys, rfl, fun key hkey' => ?_, hmade.names⟩
  · exact (congrArg Entity.isAbstract hframe.2 :).trans hconcrete
  · have hmem : site.owner ∈ m.entityNames := hsame ▸ List.mem_map_of_mem he
    rw [hkey.of_closed hm hclosed hmem] at hkey'
    obtain ⟨k, hk, rfl⟩ := List.mem_map.mp hkey'
    rw [Model.entity?_name howner]
    exact (Model.mem_primaryKeyFields hk).1.grows
      (hevolves.mono fun _ _ h => h.sameBearing.sameOutline.grows)

/-- Links are made of a model without clashes that stands in layers. -/
structure Model.Ordered (m : Model) : Prop extends m.Distinct where
  layered : m.Layered
  closed : m.Closed

namespace Pass

theorem completeReferences_ordered {options : Options} {warnings : List Warning} {m₁ m₂ : Model}
    (hm : m.Distinct) (hnames : Ends (completeNames options.dialect) m () m₁)
    (hkeys : Ends (completeKeys options) m₁ warnings m₂)
    (hreferences : Ends completeReferences m₂ () m') : m'.Ordered := by
  have hnodup₁ := (completeNames_standing hnames).nodup Entity.isChange_sameStanding hm.names
  have hdistinct₂ :=
    completeKeys_distinct hnodup₁ (completeNames_distinct hm.fields hnames) hkeys
  obtain ⟨hlayered, hclosed⟩ := completeReferences_hierarchy hnodup₁ hkeys hreferences
  exact {
    names := (complete_standing hm.names hnames hkeys hreferences).nodup
      Entity.isChange_sameStanding hm.names
    fields := completeReferences_distinct hdistinct₂ hreferences
    layered := hlayered
    closed := hclosed }

/-- The entities of links join the model, named by links, and references are completed.
Nobody extends what was made. -/
theorem completeLinks_made (hm : m.Ordered) (h : Ends (completeLinks dialect) m () m') : ∃ made,
      Evolves SameOutline made m m' ∧
      (∀ root, m'.isRoot root = true → root ∈ m.entityNames) ∧
      ∀ name ∈ made, ∃ e, m'.entity? name = some e ∧ (∃ j, Link.MadeAs name j ∧ SameOutline j e) ∧
        m'.LinkedBy dialect name (e.fields.map (·.name)) := by
  obtain ⟨made, m₁, hmade, hresolve⟩ := completeLinks_steps h
  have houtline := Reference.resolveEntities_outline hresolve
  have hadded : Evolves SameOutline made m m₁ :=
    (Link.synthesize_evolves hmade).mono fun _ _ h => h.sameOutline
  have hlinked := hadded.trans_nil isChange_sameOutline houtline
  obtain ⟨hrounds, -⟩ := Link.synthesize_rounds hm.names hm.fields hmade
  have hentity : ∀ name ∈ made, ∃ e, m'.entity? name = some e ∧
      (∃ j, Link.MadeAs name j ∧ SameOutline j e) ∧
        m'.LinkedBy dialect name (e.fields.map (·.name)) := by
    intro name hname
    obtain ⟨j, hj, hmadeAs⟩ := hrounds.made_entity hm.fields name hname
    obtain ⟨e, he, hsame⟩ := houtline.entity? isChange_sameOutline hj
    refine ⟨e, he, ⟨j, hmadeAs, hsame⟩, ?_⟩
    rw [hsame.fieldNames]
    exact (Link.synthesize_linked hm.names hm.fields hm.closed hmade hname hj).evolves
      (Reference.resolveEntities_links hresolve)
  refine ⟨made, hlinked, fun root hroot => ?_, hentity⟩
  have hencloses : m'.Encloses (· ∈ m.entityNames) fun _ => True :=
    (hm.closed.encloses fun _ _ _ _ => trivial).outline (fun _ _ _ => id) hlinked
  refine hencloses.root (fun e he => ?_) hroot
  rcases hlinked.mem he with ⟨x, hx, hsame⟩ | hnew
  · exact .inl (isChange_sameOutline.name hsame ▸ List.mem_map_of_mem hx)
  · obtain ⟨e', he', ⟨j, hj, hsame⟩, -⟩ := hentity e.name hnew
    rw [Model.entity?_of_mem (hlinked.nodup isChange_sameOutline hm.names) he] at he'
    cases he'
    exact .inr (hsame.sameStanding.parents.trans hj.apart.1)

/-- What the entity of a link owns, it has for the last passes as well; nobody extends it,
so that it gets no identity root. -/
theorem completeTables_alone {options : Options} {e : Entity}
    (hnodup : m.entityNames.Nodup) (hj : Link.MadeAs name j) (hsame : SameOutline j e)
    (he : m.entity? name = some e) (hroot : ¬m.isRoot name = true)
    (houtline : ∀ f f' : Field, f'.outline = f.outline → kind f → kind f')
    (hcopy : ∀ f, kind f → kind f.constraintCopy) (hfields : ∀ f ∈ e.fields, kind f)
    (h : Ends (completeTables options) m () m') :
    m'.Encloses (Hierarchy.widened (identified options m) (· = name)) kind := by
  obtain ⟨hparents, himplements⟩ := hj.apart
  have hm := Encloses.alone hnodup he (hsame.sameStanding.parents.trans hparents)
    (hsame.sameStanding.implements.trans himplements) hfields
  exact (completeTables_encloses hm houtline hcopy
    (fun _ hroot' hname _ => absurd (hname ▸ hroot') hroot) h).2

end Pass

end EntitySchema
