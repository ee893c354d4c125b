import EntitySchema.Proofs.ClosedHierarchy
import EntitySchema.Proofs.LinkRounds

/-! The entities behind many-to-many fields. Whether it was there or is made, the link
entity of a field gets to have a column for the target and another for the owner, or
one for each field of the owner's key. What a field was promised in its own round is
not undone by the fields that share its link entity later. -/

namespace EntitySchema

open Model (Evolves)
open Entity (SameFrame isChange_eq isChange_onlyAt isChange_sameFrame)

variable {m m' mid : Model} {e j : Entity} {f : Field} {dialect : Dialect} {owner : String}
  {index : Nat}

/-! ### Fields in their places -/

namespace Model

/-- The entity of this name has the field as the one of this number. -/
def FieldAt (m : Model) (owner : String) (index : Nat) (f : Field) : Prop :=
  ∃ e, m.entity? owner = some e ∧ e.fields[index]? = some f

theorem FieldAt.eq {f' : Field} (h : m.FieldAt owner index f) (he : m.entity? owner = some e)
    (hf : e.fields[index]? = some f') : f' = f := by
  obtain ⟨x, hx, hfield⟩ := h
  obtain rfl : e = x := Option.some.inj (he.symm.trans hx)
  exact Option.some.inj (hf.symm.trans hfield)

/-- A change of an entity that leaves the field alone, if it is that entity's. -/
theorem FieldAt.changeEntity {name : String} {change : Entity → Entity}
    (h : m.FieldAt owner index f) (hname : ∀ e, (change e).name = e.name)
    (hkeep : ∀ e, m.entity? name = some e → owner = name → e.fields[index]? = some f →
      (change e).fields[index]? = some f) : (m.changeEntity name change).FieldAt owner index f := by
  obtain ⟨e, he, hf⟩ := h
  by_cases howner : owner = name
  · subst howner
    exact ⟨_, entity?_changeEntity he (hname e), hkeep e he rfl hf⟩
  · obtain ⟨e', he', -, hsame⟩ :=
      (Evolves.changeEntity_onlyAt hname).entity? (isChange_onlyAt name) he
    exact ⟨e', he', hsame (entity?_name he ▸ howner) ▸ hf⟩

end Model

namespace Link

variable {site : Site} {target : Target} {link : Link} {made : List String}
  {before after rounds : List Site} {keys : List String} {localId remoteId : String}

theorem showIn_mref {remote entity : String} {labels : List String} (he : e.DistinctFields)
    (hcolumn : e.HasColumn remote entity) (hf : e.fields[index]? = some f)
    (hmref : f.isMref = true) : (showIn remote labels e).fields[index]? = some f := by
  have hkeeps : List.Forall₂ (fun f f' : Field => f.isMref = true → f' = f) e.fields
      (showIn remote labels e).fields :=
    forall₂_changeFirst (fun _ _ => rfl) fun g hg hmref =>
      absurd hmref (by simp [isMref_of_column he hcolumn hg])
  obtain ⟨f', hf', hsame⟩ := getElem?_of_forall₂ hkeeps hf
  exact hsame hmref ▸ hf'

theorem fieldAt_shown {existing : Entity} {remote entity : String} {declared : Option String}
    (hm : m.DistinctFields) (hfound : m.entity? existing.name = some existing)
    (hremote : remoteColumn? existing entity declared = some remote) (labels : List String)
    (hf : m.FieldAt owner index f) (hmref : f.isMref = true) :
    (m.changeEntity existing.name (showIn remote labels)).FieldAt owner index f := by
  refine hf.changeEntity (fun _ => rfl) fun e he _ hf => ?_
  rw [hfound] at he
  cases he
  exact showIn_mref (hm existing (Model.entity?_mem hfound)) (remoteColumn?_ok hremote) hf hmref

/-- A round changes no other many-to-many field than the one at its site. -/
theorem Backed.fieldAt (hm : m.DistinctFields) (h : Backed dialect m site made m')
    (hf : m.FieldAt owner index f) (hmref : f.isMref = true)
    (hother : (site.owner, site.index) ≠ (owner, index)) : m'.FieldAt owner index f := by
  cases h with
  | @reused _ _ target _ _ _ _ _ _ _ hfound hreuse =>
    obtain ⟨remote, own, hremote, -, rfl⟩ := reuse_ok hreuse
    have hshown := fieldAt_shown hm (Model.entity?_self hfound) hremote target.labels hf hmref
    refine hshown.changeEntity (fun _ => rfl) fun e he howner hf => ?_
    have hindex : site.index ≠ index := fun hindex => hother (by rw [howner, hindex])
    simp [routeAt, hindex, hf]
  | made _ _ _ _ _ hadd =>
    obtain ⟨e, he, hf⟩ := hf
    have hsame : Evolves Eq _ m m' := .addEntity isChange_eq hadd
    obtain ⟨_, he', rfl⟩ := hsame.entity? isChange_eq he
    exact ⟨e, he', hf⟩

theorem Rounds.fieldAt (h : Rounds dialect rounds m made m') (hm : m.DistinctFields)
    (hf : m.FieldAt owner index f) (hmref : f.isMref = true)
    (hother : ∀ site ∈ rounds, (site.owner, site.index) ≠ (owner, index)) :
    m'.FieldAt owner index f := by
  induction h with
  | done => exact hf
  | round backed _ ih =>
    obtain ⟨hsite, hrest⟩ := List.forall_mem_cons.mp hother
    exact ih (backed.frame hm).2 (backed.fieldAt hm hf hmref hsite) hrest

/-! ### What a round promises -/

/-- The names of the columns for an owner whose key has these fields. -/
def ownerColumns (dialect : Dialect) (localId : String) (keys : List String) : List String :=
  if 1 < keys.length then keys.map fun key => Identifier.mangle s!"{localId}_{key}" dialect.limit?
  else [localId]

/-- The field at the site has these columns of the entity of its link; that for the
target is there. -/
structure Joined (m : Model) (site : Site) (f : Field) (target : Target)
    (localId remoteId : String) (j : Entity) : Prop where
  field : m.FieldAt site.owner site.index { f with
    type := .mref target { name := site.link, localId := localId, remoteId := remoteId } }
  found : m.entity? site.link = some j
  remote : j.HasColumn remoteId target.entity

/-- A link entity that was made for an owner whose key has these fields. -/
structure MadeFor (dialect : Dialect) (keys : List String) (owner localId remoteId : String)
    (j : Entity) : Prop where
  nonempty : keys ≠ []
  columns : ∀ column ∈ ownerColumns dialect localId keys,
    j.HasColumn column owner ∧ column ≠ remoteId
  names : j.fields.map (·.name) = keyName :: ownerColumns dialect localId keys ++ [remoteId]
  keys : j.keys =
    [{ fields := [keyName] }, { fields := ownerColumns dialect localId keys ++ [remoteId] }]
  association : j.association = true
  system : j.system = true
  concrete : j.isAbstract = false

theorem MadeFor.frame {j' : Entity} (h : MadeFor dialect keys owner localId remoteId j)
    (hsame : SameFrame j j') : MadeFor dialect keys owner localId remoteId j' where
  nonempty := h.nonempty
  columns column hcolumn := (h.columns column hcolumn).imp_left hsame.hasColumn
  names := hsame.sameBearing.sameOutline.fieldNames.trans h.names
  keys := hsame.sameBearing.sameOutline.keys.trans h.keys
  association := (congrArg Entity.association hsame.2 :).trans h.association
  system := (congrArg Entity.system hsame.2 :).trans h.system
  concrete := (congrArg Entity.isAbstract hsame.2 :).trans h.concrete

theorem ownerColumns_names {fields : List Field} (h : fields ≠ []) :
    (fields.map (ownerColumn dialect owner localId (1 < fields.length))).map (·.name) =
      ownerColumns dialect localId (fields.map (·.name)) := by
  unfold ownerColumns ownerColumn ownerColumnName column
  rw [List.length_map]
  by_cases hlength : 1 < fields.length
  · simp [hlength, Field.named]
  · obtain ⟨f, rfl⟩ : ∃ f, fields = [f] :=
      List.length_eq_one_iff.mp (by have := List.length_pos_of_ne_nil h; omega)
    simp [Field.named]

theorem make_joins {new : Entity} {field : String}
    (h : make m dialect e field target link site.link = .ok new) : ∃ localId remoteId,
      link.localId = some localId ∧ link.remoteId = some remoteId ∧
      new.HasColumn remoteId target.entity ∧ MadeFor dialect
        ((m.primaryKeyFields e.name).map (·.name)) e.name localId remoteId new := by
  obtain ⟨localId, remoteId, hlocal, hremote, hkey, hcolumns⟩ := make_ok h
  have hplain : (plainEntity e field site.link).DistinctFields := by
    simp [Entity.DistinctFields, plainEntity]
  have hdistinct := withColumns_distinct hplain hcolumns
  have hnames : ((m.primaryKeyFields e.name).map (ownerColumn dialect e.name localId
      (1 < (m.primaryKeyFields e.name).length))).map (·.name) =
      ownerColumns dialect localId ((m.primaryKeyFields e.name).map (·.name)) :=
    ownerColumns_names hkey
  rw [withColumns_ok hcolumns] at hdistinct ⊢
  have hall : (keyField :: (m.primaryKeyFields e.name).map (ownerColumn dialect e.name localId
      (1 < (m.primaryKeyFields e.name).length)) ++ [column remoteId target]).map (·.name) =
      keyName :: ownerColumns dialect localId ((m.primaryKeyFields e.name).map (·.name)) ++
        [remoteId] := by
    rw [List.map_append, List.map_cons, hnames]
    rfl
  refine ⟨localId, remoteId, hlocal, hremote, ⟨column remoteId target, by simp, rfl, rfl, rfl⟩,
    by simpa using hkey, fun name hname => ?_, by simpa [plainEntity] using hall, ?_, rfl, rfl, rfl⟩
  · have hname' := hname
    rw [← hnames] at hname'
    obtain ⟨c, hc, rfl⟩ := List.mem_map.mp hname'
    obtain ⟨key, hkey, rfl⟩ := List.mem_map.mp hc
    refine ⟨⟨_, by simp [hc], rfl, rfl, rfl⟩, fun heq => ?_⟩
    -- a column for the owner is not called like that for the target
    have hdistinct : (keyName :: ownerColumns dialect localId
        ((m.primaryKeyFields e.name).map (·.name)) ++ [remoteId]).Nodup := by
      rw [← hall]
      simpa [Entity.DistinctFields, plainEntity] using hdistinct
    exact List.disjoint_of_nodup_append hdistinct (List.mem_cons_of_mem _ hname)
      (heq ▸ List.mem_singleton_self _)
  · simp [plainEntity, ← hnames, column, Field.named]

/-- A field whose link entity is there takes its columns from that. -/
theorem Backed.takes {existing : Entity} (hm : m.DistinctFields)
    (h : Backed dialect m site made m') (hf : m.FieldAt site.owner site.index f)
    (htype : f.type = .mref target link) (hfound : m.entity? site.link = some existing) :
    ∃ remote own, remoteColumn? existing target.entity link.remoteId = some remote ∧
      localColumn? existing site.owner remote = some own ∧
      m'.FieldAt site.owner site.index { f with
        type := .mref target { name := site.link, localId := own, remoteId := remote } } := by
  have hmref := Field.isMref_of_type htype
  cases h with
  | reused howns hfield htype' hname hfound' hreuse =>
    obtain rfl := hf.eq howns hfield
    obtain ⟨rfl, rfl⟩ : target = _ ∧ link = _ := FieldType.mref.inj (htype.symm.trans htype')
    obtain rfl := Option.some.inj (hfound.symm.trans hfound')
    obtain ⟨remote, own, hremote, hown, hm'⟩ := reuse_ok hreuse
    obtain ⟨e₁, he₁, hf₁⟩ :=
      fieldAt_shown hm (Model.entity?_self hfound) hremote target.labels hf hmref
    refine ⟨remote, own, hremote, hown, _, hm' ▸ Model.entity?_changeEntity he₁ rfl, ?_⟩
    simp [routeAt, hf₁, through, htype, FieldType.mapLink, hname]
  | made _ _ _ _ hmake hadd =>
    have hnew := make_name hmake ▸ (Model.addEntity_ok hadd).1
    rw [Model.hasEntity_iff.mpr ⟨existing, hfound⟩] at hnew
    cases hnew

/-- The field at the site gets its columns, from an entity that is there or is made. -/
theorem Backed.joins (hm : m.DistinctFields) (h : Backed dialect m site made m')
    (hf : m.FieldAt site.owner site.index f) (htype : f.type = .mref target link) :
    ∃ localId remoteId j, Joined m' site f target localId remoteId j ∧
      (m.hasEntity site.link = true → j.HasColumn localId site.owner ∧ localId ≠ remoteId) ∧
      (m.hasEntity site.link = false → MadeFor dialect
        ((m.primaryKeyFields site.owner).map (·.name)) site.owner localId remoteId j) := by
  have htakes := fun existing (hfound : m.entity? site.link = some existing) =>
    h.takes hm hf htype hfound
  have hframe := (h.frame hm).1
  cases h with
  | @reused _ _ _ _ existing _ _ _ _ _ hfound _ =>
    obtain ⟨remote, own, hremote, hown, hfield⟩ := htakes existing hfound
    obtain ⟨hown, hne⟩ := localColumn?_ok hown
    obtain ⟨j, hj, hsame⟩ := hframe.entity? isChange_sameFrame hfound
    refine ⟨own, remote, j, ⟨hfield, hj, hsame.hasColumn (remoteColumn?_ok hremote)⟩,
      fun _ => ⟨hsame.hasColumn hown, hne⟩, fun hnone => ?_⟩
    rw [Model.hasEntity_iff.mpr ⟨existing, hfound⟩] at hnone
    cases hnone
  | @made e _ _ _ new _ howns hfield htype' hname hmake hadd =>
    obtain rfl := hf.eq howns hfield
    obtain ⟨rfl, rfl⟩ : target = _ ∧ link = _ := FieldType.mref.inj (htype.symm.trans htype')
    have hlink : new.name = site.link := make_name hmake
    obtain ⟨localId, remoteId, hlocal, hremote, hcolumn, hmade⟩ := make_joins hmake
    have hfound := hlink ▸ Model.entity?_addEntity hadd
    have hnew : m.hasEntity site.link = false := hlink ▸ (Model.addEntity_ok hadd).1
    have hsame : Evolves Eq _ m m' := .addEntity isChange_eq hadd
    rw [Model.entity?_name howns] at hmade
    refine ⟨localId, remoteId, new, ⟨?_, hfound, hcolumn⟩, by simp [hnew], fun _ => hmade⟩
    obtain ⟨_, he', rfl⟩ := hsame.entity? isChange_eq howns
    refine ⟨e, he', ?_⟩
    rw [hfield, ← hname, ← hlocal, ← hremote, ← htype]

/-! ### The run -/

theorem Joined.keeps {j : Entity} (h : Joined m site f target localId remoteId j)
    (hrounds : Rounds dialect rounds m made m') (hm : m.DistinctFields)
    (hother : ∀ s ∈ rounds, (s.owner, s.index) ≠ (site.owner, site.index)) :
    ∃ j', SameFrame j j' ∧ Joined m' site f target localId remoteId j' := by
  obtain ⟨j', hj', hsame⟩ := (hrounds.frame hm).1.entity? isChange_sameFrame h.found
  exact ⟨j', hsame, hrounds.fieldAt hm h.field rfl hother, hj', hsame.hasColumn h.remote⟩

/-- The entities that are made are those of links without one, in the order of sites. -/
theorem Rounds.made_eq (h : Rounds dialect rounds m made m') (hm : m.DistinctFields) :
    made = ((rounds.map (·.link)).filter fun name => !m.hasEntity name).eraseDups := by
  induction h with
  | done => rfl
  | @round site rest first others m m₁ m' backed _ ih =>
    obtain ⟨hframe, hm₁⟩ := backed.frame hm
    have hnames := hframe.entityNames isChange_sameFrame
    have hhas : ∀ name, m₁.hasEntity name = (m.hasEntity name || first.contains name) := by
      intro name
      rw [Bool.eq_iff_iff, Model.hasEntity_iff, ← Model.mem_entityNames, hnames, Bool.or_eq_true,
        Model.hasEntity_iff, ← Model.mem_entityNames]
      simp
    rw [ih hm₁, List.map_cons]
    cases backed with
    | reused _ _ _ _ hfound _ =>
      have hthere := Model.hasEntity_iff.mpr ⟨_, hfound⟩
      simp [hhas, hthere]
    | made _ _ _ _ hmake hadd =>
      have hnew : m.hasEntity site.link = false :=
        make_name hmake ▸ (Model.addEntity_ok hadd).1
      rw [List.filter_cons_of_pos (by simp [hnew]), List.eraseDups_cons, List.filter_filter]
      simp [hhas, Bool.and_comm, beq_eq_decide]

theorem siteAt_place (h : siteAt e index = some site) :
    site.owner = e.name ∧ site.index = index := by
  obtain ⟨_, _, rfl⟩ := Option.map_eq_some_iff.mp h
  exact ⟨rfl, rfl⟩

theorem mem_sitesOf (hconcrete : e.isAbstract = false) (h : siteAt e index = some site) :
    site ∈ sitesOf e := by
  have hindex : index < e.fields.length := by
    by_contra hlarge
    rw [siteAt, List.getElem?_eq_none (Nat.not_lt.mp hlarge)] at h
    cases h
  rw [sitesOf, hconcrete]
  exact List.mem_filterMap.mpr ⟨index, List.mem_range.mpr hindex, h⟩

/-- A many-to-many field of a concrete entity is at a site, if it names its link. -/
theorem mem_sites_of_mref {name : String} (he : e ∈ m.entities) (hconcrete : e.isAbstract = false)
    (hf : e.fields[index]? = some f) (htype : f.type = .mref target link)
    (hname : link.name = some name) : ⟨e.name, index, name⟩ ∈ sites m := by
  have hsite : siteAt e index = some ⟨e.name, index, name⟩ := by
    simp [siteAt, hf, htype, FieldType.link?, hname]
  exact List.mem_flatMap.mpr ⟨e, he, mem_sitesOf hconcrete hsite⟩

/-- No two sites are in the same place. -/
theorem sites_nodup (hnodup : m.entityNames.Nodup) :
    ((sites m).map fun site => (site.owner, site.index)).Nodup := by
  have howner : ∀ e : Entity, ∀ place ∈ (sitesOf e).map fun site => (site.owner, site.index),
      place.1 = e.name := by
    intro e place hplace
    obtain ⟨site, hsite, rfl⟩ := List.mem_map.mp hplace
    unfold sitesOf at hsite
    split at hsite
    · cases hsite
    · obtain ⟨_, _, hsite⟩ := List.mem_filterMap.mp hsite
      exact (siteAt_place hsite).1
  unfold sites
  rw [List.map_flatMap, List.nodup_flatMap]
  constructor
  · intro e _
    unfold sitesOf
    split
    · exact .nil
    · rw [List.map_filterMap]
      refine List.nodup_range.filterMap fun i i' place h h' => ?_
      obtain ⟨site, hsite, rfl⟩ := Option.map_eq_some_iff.mp h
      obtain ⟨site', hsite', heq⟩ := Option.map_eq_some_iff.mp h'
      rw [← (siteAt_place hsite).2, ← (siteAt_place hsite').2]
      exact (congrArg Prod.snd heq).symm
  · refine (List.pairwise_map.mp hnodup).imp fun {a b} hne => ?_
    exact List.disjoint_left.mpr fun place ha hb =>
      hne ((howner a place ha).symm.trans (howner b place hb))

/-- The run up to the turn of a site, its own round, and the run after it, which are all at
other places. -/
theorem Rounds.turn (hnodup : m.entityNames.Nodup) (h : Rounds dialect (sites m) m made m')
    (hsite : site ∈ sites m) : ∃ before after made₁ made₂ made₃ mid mid',
      sites m = before ++ site :: after ∧
      (∀ s ∈ before, (s.owner, s.index) ≠ (site.owner, site.index)) ∧
      (∀ s ∈ after, (s.owner, s.index) ≠ (site.owner, site.index)) ∧
      Rounds dialect before m made₁ mid ∧ Backed dialect mid site made₂ mid' ∧
      Rounds dialect after mid' made₃ m' := by
  obtain ⟨before, after, hsites⟩ := List.append_of_mem hsite
  have hplaces := sites_nodup hnodup
  have hrounds := h
  rw [hsites] at hrounds hplaces
  rw [List.map_append, List.map_cons, List.nodup_middle, List.nodup_cons, List.mem_append,
    not_or] at hplaces
  obtain ⟨⟨hbefore, hafter⟩, -⟩ := hplaces
  have hne : ∀ {rounds : List Site}, (site.owner, site.index) ∉ rounds.map
      (fun s => (s.owner, s.index)) → ∀ s ∈ rounds, (s.owner, s.index) ≠ (site.owner, site.index) :=
    fun hnot s hs heq => hnot (heq ▸ List.mem_map_of_mem hs)
  obtain ⟨made₁, _, mid, -, hfirst, hrest⟩ := hrounds.split
  cases hrest with
  | round backed rest =>
    exact ⟨before, after, made₁, _, _, mid, _, hsites, hne hbefore, hne hafter, hfirst, backed,
      rest⟩

/-- Fields whose link entity is there from the beginning take their columns from that. -/
theorem Rounds.takes (hnodup : m.entityNames.Nodup) (hm : m.DistinctFields)
    (h : Rounds dialect (sites m) m made m') (hsite : site ∈ sites m)
    (hf : m.FieldAt site.owner site.index f) (htype : f.type = .mref target link)
    (hj : m.entity? site.link = some j) :
    ∃ remote own : String, remoteColumn? j target.entity link.remoteId = some remote ∧
      m'.FieldAt site.owner site.index { f with
        type := .mref target { name := site.link, localId := own, remoteId := remote } } := by
  obtain ⟨before, after, made₁, made₂, made₃, mid, mid', -, hbefore, hafter, hfirst, backed,
    rest⟩ := h.turn hnodup hsite
  obtain ⟨hframe, hmid⟩ := hfirst.frame hm
  have hmref := Field.isMref_of_type htype
  have hf := hfirst.fieldAt hm hf hmref hbefore
  obtain ⟨j', hj', hsame⟩ := hframe.entity? isChange_sameFrame hj
  obtain ⟨remote, own, hremote, -, hfield⟩ := backed.takes hmid hf htype hj'
  refine ⟨remote, own, ?_, rest.fieldAt (backed.frame hmid).2 hfield rfl hafter⟩
  unfold remoteColumn? at hremote ⊢
  rwa [columnsFor_bearing hsame.sameBearing] at hremote

/-- The link of the site has no entity yet, and no site before it has the same link. -/
def Makes (m : Model) (site : Site) : Prop :=
  m.hasEntity site.link = false ∧ (sites m).find? (·.link = site.link) = some site

instance : Decidable (Makes m site) := inferInstanceAs (Decidable (_ ∧ _))

/-- The entity of a site is made in its round if there is none by then. -/
theorem makes_iff (hm : m.DistinctFields) (hsites : sites m = before ++ site :: after)
    (hfirst : site ∉ before) (h : Rounds dialect before m made mid) :
    Makes m site ↔ mid.hasEntity site.link = false := by
  have hmid : mid.hasEntity site.link = true ↔
      m.hasEntity site.link = true ∨ ∃ s ∈ before, s.link = site.link := by
    rw [Model.hasEntity_iff, ← Model.mem_entityNames,
      (h.frame hm).1.entityNames isChange_sameFrame, List.mem_append, h.made_eq hm,
      Model.mem_entityNames, ← Model.hasEntity_iff, List.mem_eraseDups, List.mem_filter,
      List.mem_map, Bool.not_eq_true']
    cases m.hasEntity site.link <;> simp
  have hfind : (sites m).find? (·.link = site.link) = some site ↔
      ¬∃ s ∈ before, s.link = site.link := by
    rw [hsites, List.find?_append]
    constructor
    · rintro hfound ⟨s, hs, hlink⟩
      obtain ⟨s', hs'⟩ : ∃ s', before.find? (·.link = site.link) = some s' :=
        Option.isSome_iff_exists.mp (List.find?_isSome.mpr ⟨s, hs, by simp [hlink]⟩)
      rw [hs', Option.some_or] at hfound
      cases hfound
      exact hfirst (List.mem_of_find?_eq_some hs')
    · intro hnone
      have hnone : before.find? (·.link = site.link) = none := by
        simpa [List.find?_eq_none] using hnone
      simp [hnone]
  rw [Makes, hfind, ← Bool.not_eq_true, ← not_or, ← hmid, Bool.not_eq_true]

/-- The names of the fields in the owner's primary key, as its site's round finds it. -/
def KeyAt (dialect : Dialect) (m : Model) (site : Site) (keys : List String) : Prop :=
  ∃ before after made mid, sites m = before ++ site :: after ∧
    Rounds dialect before m made mid ∧
    keys = (mid.primaryKeyFields site.owner).map (·.name)

/-- In a closed hierarchy, entities made before do not stand above the owner, so its key
is what it was. -/
theorem KeyAt.of_closed (h : KeyAt dialect m site keys) (hm : m.DistinctFields)
    (hclosed : m.Closed) (howner : site.owner ∈ m.entityNames) :
    keys = (m.primaryKeyFields site.owner).map (·.name) := by
  obtain ⟨before, after, made, mid, -, hbefore, rfl⟩ := h
  exact Model.primaryKeyFields_outline hclosed
    ((hbefore.frame hm).1.mono fun _ _ h => h.sameBearing.sameOutline) howner

/-- Every site gets what its own round promised. -/
theorem Rounds.joins (hnodup : m.entityNames.Nodup) (hm : m.DistinctFields)
    (h : Rounds dialect (sites m) m made m') (hsite : site ∈ sites m)
    (hf : m.FieldAt site.owner site.index f) (htype : f.type = .mref target link) :
    ∃ localId remoteId j, Joined m' site f target localId remoteId j ∧
      (¬Makes m site → j.HasColumn localId site.owner ∧ localId ≠ remoteId) ∧
      (Makes m site → ∃ keys, KeyAt dialect m site keys ∧
        MadeFor dialect keys site.owner localId remoteId j) := by
  obtain ⟨before, after, made₁, made₂, made₃, mid, mid', hsites, hbefore, hafter, hfirst, backed,
    rest⟩ := h.turn hnodup hsite
  have hmid := (hfirst.frame hm).2
  have hmakes := makes_iff hm hsites (fun hs => hbefore site hs rfl) hfirst
  have hmref := Field.isMref_of_type htype
  have hf := hfirst.fieldAt hm hf hmref hbefore
  obtain ⟨localId, remoteId, j, hjoined, hthere, hmade⟩ := backed.joins hmid hf htype
  obtain ⟨j', hsame, hjoined'⟩ := hjoined.keeps rest (backed.frame hmid).2 hafter
  refine ⟨localId, remoteId, j', hjoined', fun hnot => ?_, fun hyes => ?_⟩
  · rw [hmakes, Bool.not_eq_false] at hnot
    exact (hthere hnot).imp_left hsame.hasColumn
  · exact ⟨_, ⟨before, after, made₁, mid, hsites, hfirst, rfl⟩,
      (hmade (hmakes.mp hyes)).frame hsame⟩

/-- Every many-to-many field of an entity with a table gets a link entity with the columns
that it needs, and of the model nothing else changes. -/
theorem synthesize_joins (dialect : Dialect) (m : Model) (created : List String) (m' : Model)
    (hnodup : m.entityNames.Nodup) (hm : m.DistinctFields)
    (h : Ends (synthesize dialect) m created m') :
    created = (((sites m).map (·.link)).filter fun name => !m.hasEntity name).eraseDups ∧
    Evolves SameFrame created m m' ∧
    ∀ e ∈ m.entities, e.isAbstract = false → ∀ (index : Nat) (f : Field) target link,
      e.fields[index]? = some f → f.type = .mref target link →
      ∃ name localId remoteId j, link.name = some name ∧
        Joined m' ⟨e.name, index, name⟩ f target localId remoteId j ∧
        (¬Makes m ⟨e.name, index, name⟩ → j.HasColumn localId e.name ∧ localId ≠ remoteId) ∧
        (Makes m ⟨e.name, index, name⟩ → ∃ keys, KeyAt dialect m ⟨e.name, index, name⟩ keys ∧
          (m.Closed → keys = (m.primaryKeyFields e.name).map (·.name)) ∧
          MadeFor dialect keys e.name localId remoteId j) := by
  obtain ⟨hrounds, hsited⟩ := synthesize_rounds hnodup hm h
  refine ⟨hrounds.made_eq hm, (hrounds.frame hm).1, ?_⟩
  intro e he hconcrete index f target link hf htype
  have hmref := Field.isMref_of_type htype
  obtain ⟨site, hsite⟩ := Option.isSome_iff_exists.mp (hsited e he hconcrete index f hf hmref)
  obtain ⟨name, hname, rfl⟩ : ∃ name, link.name = some name ∧ ⟨e.name, index, name⟩ = site := by
    simpa [siteAt, hf, htype, FieldType.link?] using hsite
  have hmem : ⟨e.name, index, name⟩ ∈ sites m :=
    List.mem_flatMap.mpr ⟨e, he, mem_sitesOf hconcrete hsite⟩
  have hfound := Model.entity?_of_mem hnodup he
  obtain ⟨localId, remoteId, j, hjoined, hthere, hmade⟩ :=
    hrounds.joins hnodup hm hmem ⟨e, hfound, hf⟩ htype
  refine ⟨name, localId, remoteId, j, hname, hjoined, hthere, fun hmakes => ?_⟩
  obtain ⟨keys, hkey, hmade⟩ := hmade hmakes
  exact ⟨keys, hkey, fun hclosed =>
    hkey.of_closed hm hclosed (Model.mem_entityNames.mpr ⟨e, hfound⟩), hmade⟩

/-- Players play for teams, which have rivals; teams are known by town and season. -/
def league : Model :=
  { Model.empty with entities := [
      { Entity.named "Team" with
        fields := [Field.named "town" .int, Field.named "season" .int,
          Field.named "players" (.mref { entity := "Player" } ⟨"Squad", "Team", "Player"⟩),
          Field.named "rivals" (.mref { entity := "Team" } ⟨"Rivals", "Team_self", "Team"⟩)]
        keys := [{ fields := ["town", "season"] }] },
      { Entity.named "Player" with
        fields := [Field.named "id" .int,
          Field.named "teams" (.mref { entity := "Team" } ⟨"Squad", "Player", "Team"⟩)]
        keys := [{ fields := ["id"] }] }] }

theorem league_joins : league.entityNames.Nodup ∧ league.DistinctFields ∧
    ∃ m', Ends (synthesize .generic) league ["Squad", "Rivals"] m' ∧
      ∃ localId remoteId j, m'.entity? "Squad" = some j ∧ j.HasColumn remoteId "Player" ∧
        MadeFor .generic ["town", "season"] "Team" localId remoteId j := by
  have hnodup : league.entityNames.Nodup := by decide
  have hdistinct : league.DistinctFields := by
    unfold Model.DistinctFields Entity.DistinctFields
    decide
  have hrun : Ends (synthesize .generic) league ["Squad", "Rivals"]
      ((synthesize .generic).run league).2 := Prod.ext (by decide +kernel) rfl
  obtain ⟨-, -, hjoins⟩ := synthesize_joins _ _ _ _ hnodup hdistinct hrun
  obtain ⟨name, localId, remoteId, j, hname, hjoined, -, hmade⟩ :=
    hjoins _ List.mem_cons_self rfl 2 _ _ _ rfl rfl
  cases hname
  obtain ⟨keys, -, hkeys, hmade⟩ := hmade (by decide +kernel)
  rw [hkeys (by decide +kernel)] at hmade
  have hnames : (league.primaryKeyFields "Team").map (·.name) = ["town", "season"] := by
    decide +kernel
  exact ⟨hnodup, hdistinct, _, hrun, localId, remoteId, j, hjoined.found, hjoined.remote,
    hnames ▸ hmade⟩

/-- A link entity, abstract so that its own fields are not backed, with two fields of one
name, of which the first is many-to-many. -/
def twins : Model :=
  { Model.empty with entities := [
      { Entity.named "Squad" with
        isAbstract := true
        fields := [Field.named "player" (.mref { entity := "Player", labels := ["shirt"] } {}),
          Field.named "player" (.xref { entity := "Player", labels := ["shirt"] }),
          Field.named "team" (.xref { entity := "Team" })] },
      { Entity.named "Team" with
        fields := [Field.named "id" .int, Field.named "players"
          (.mref { entity := "Player", labels := ["nick"] } ⟨"Squad", "team", "player"⟩)]
        keys := [{ fields := ["id"] }] },
      { Entity.named "Player" with
        fields := [Field.named "id" .int]
        keys := [{ fields := ["id"] }] }] }

/-- Teams are known by town and season, and extend an entity that is not there; then the
squads of players are made under its name. -/
def orphan : Model :=
  { Model.empty with entities := [
      { Entity.named "Team" with
        parents := ["Squad"]
        fields := [Field.named "town" .int, Field.named "season" .int,
          Field.named "players" (.mref { entity := "Player" } ⟨"Squad", "Team", "Player"⟩),
          Field.named "rivals" (.mref { entity := "Team" } ⟨"Rivals", "Team_self", "Team"⟩)]
        keys := [{ fields := ["town", "season"] }] },
      { Entity.named "Player" with
        fields := [Field.named "id" .int]
        keys := [{ fields := ["id"] }] }] }

/-- With two fields of one name, labels of a many-to-many field change; and below an entity
that is made, a key of several fields gets one column. -/
theorem synthesize_joins_not_all :
    (twins.entityNames.Nodup ∧ ∃ m', Ends (synthesize .generic) twins [] m' ∧
      ¬Evolves SameFrame [] twins m') ∧
    (orphan.entityNames.Nodup ∧ ∃ m', Ends (synthesize .generic) orphan ["Squad", "Rivals"] m' ∧
      Makes orphan ⟨"Team", 3, "Rivals"⟩ ∧
      (orphan.primaryKeyFields "Team").map (·.name) = ["town", "season"] ∧
      (m'.entity? "Rivals").map (fun j => j.fields.map (·.name)) =
        some ["autoid", "Team_self", "Team"]) := by
  constructor
  · have hrun : Ends (synthesize .generic) twins [] ((synthesize .generic).run twins).2 :=
      Prod.ext (by decide +kernel) rfl
    refine ⟨by decide, _, hrun, fun hevolves => ?_⟩
    have hsquad : (twins.entity? "Squad").isSome = true := by decide
    obtain ⟨squad, hsquad⟩ := Option.isSome_iff_exists.mp hsquad
    obtain ⟨j, hj, hsame⟩ := hevolves.entity? isChange_sameFrame hsquad
    have hframes : ((((synthesize .generic).run twins).2).entity? "Squad").map
        (fun j => j.fields.map Field.frame) ≠
        (twins.entity? "Squad").map (fun j => j.fields.map Field.frame) := by decide +kernel
    rw [hj, hsquad] at hframes
    exact hframes (congrArg some hsame.1)
  · have hrun : Ends (synthesize .generic) orphan ["Squad", "Rivals"]
        ((synthesize .generic).run orphan).2 := Prod.ext (by decide +kernel) rfl
    exact ⟨by decide, _, hrun, by decide +kernel, by decide +kernel, by decide +kernel⟩

end Link

end EntitySchema
