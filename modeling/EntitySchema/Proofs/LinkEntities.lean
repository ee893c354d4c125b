import EntitySchema.Link.Entity
import EntitySchema.Proofs.Growth

/-! Backing many-to-many fields. A field that takes its columns from a link entity
keeps its bearing, and so does the column that shows what the field shows; every
entity that is made stands behind the others, under the name that is reported. -/

namespace EntitySchema

/-- The entity has a field of this name, not many-to-many, that refers to that entity. -/
def Entity.HasColumn (e : Entity) (name entity : String) : Prop :=
  ∃ f ∈ e.fields, f.name = name ∧ f.isMref = false ∧ f.targetEntity? = some entity

namespace Link

open Model (Evolves)
open Entity (SameBearing isChange_sameBearing)

variable {m m' : Model} {dialect : Dialect}

/-! ### Entities that are made -/

theorem insertField_ok {e e' : Entity} {position : Nat} {f : Field}
    (h : e.insertField position f = .ok e') : e.hasField f.name = false ∧
      e' = { e with fields := e.fields.take position ++ f :: e.fields.drop position } := by
  unfold Entity.insertField at h
  split at h
  · cases h
  · next hf => cases h; exact ⟨by simpa using hf, rfl⟩

theorem addField_ok {e e' : Entity} {f : Field} (h : e.addField f = .ok e') :
    e.hasField f.name = false ∧ e' = { e with fields := e.fields ++ [f] } := by
  obtain ⟨hnew, h⟩ := insertField_ok h
  exact ⟨hnew, by simpa using h⟩

theorem addKey_ok {e e' : Entity} {key : Key} (h : e.addKey key = .ok e') :
    e.hasKey key.fields = false ∧ e' = { e with keys := e.keys ++ [key] } := by
  unfold Entity.addKey Entity.insertKey at h
  split at h
  · cases h
  · next hk => cases h; exact ⟨by simpa using hk, by simp⟩

/-- Fields that are added stand behind those that are there. -/
theorem addFields_ok : ∀ {fields : List Field} {e e' : Entity},
    fields.foldlM Entity.addField e = .ok e' → e' = { e with fields := e.fields ++ fields }
  | [], e, e', h => by cases h; simp
  | f :: rest, e, e', h => by
    obtain ⟨e₁, hf, h⟩ := Except.bind_ok h
    rw [addFields_ok h, (addField_ok hf).2]
    simp

theorem withColumns_ok {columns : List Field} {e e' : Entity}
    (h : withColumns columns e = .ok e') : e' = { e with
      fields := e.fields ++ columns
      keys := e.keys ++ [{ fields := columns.map (·.name) }] } := by
  obtain ⟨e₁, hcolumns, h⟩ := Except.bind_ok h
  rw [(addKey_ok h).2, addFields_ok hcolumns]

/-- The columns of a link entity that is made. -/
theorem make_ok {owner e : Entity} {field name : String} {target : Target} {link : Link}
    (h : make m dialect owner field target link name = .ok e) :
    ∃ localId remoteId, link.localId = some localId ∧ link.remoteId = some remoteId ∧
      m.primaryKeyFields owner.name ≠ [] ∧
      withColumns ((m.primaryKeyFields owner.name).map (ownerColumn dialect owner.name localId
        (1 < (m.primaryKeyFields owner.name).length)) ++ [column remoteId target])
        (plainEntity owner field name) = .ok e := by
  unfold make at h
  split at h
  · next localId remoteId hlocal hremote =>
    obtain ⟨hkey, h⟩ := Except.guard_ok h
    refine ⟨localId, remoteId, hlocal, hremote, by simpa using hkey,
      Except.mapError_ok (g := Failure.duplicate) ?_⟩
    exact h
  · cases h

theorem make_name {owner e : Entity} {field name : String} {target : Target} {link : Link}
    (h : make m dialect owner field target link name = .ok e) : e.name = name := by
  obtain ⟨_, _, _, _, _, h⟩ := make_ok h
  rw [withColumns_ok h]
  rfl

/-! ### Columns -/

theorem mem_columnsFor {e : Entity} {name entity : String} :
    name ∈ columnsFor e entity ↔ e.HasColumn name entity := by
  unfold columnsFor Entity.HasColumn
  simp only [List.mem_map, List.mem_filter, Bool.and_eq_true, Bool.not_eq_true', decide_eq_true_eq]
  constructor
  · rintro ⟨f, ⟨hf, hmref, htarget⟩, rfl⟩
    exact ⟨f, hf, rfl, hmref, htarget⟩
  · rintro ⟨f, hf, rfl, hmref, htarget⟩
    exact ⟨f, ⟨hf, hmref, htarget⟩, rfl⟩

/-- For the columns of an entity, it is enough to know of each field its name, whether it is
many-to-many, and its target. -/
theorem columnsFor_map {g : Field → Field} (hname : ∀ f, (g f).name = f.name)
    (hmref : ∀ f, (g f).isMref = f.isMref) (htarget : ∀ f, (g f).targetEntity? = f.targetEntity?)
    (e : Entity) (entity : String) : columnsFor e entity = ((e.fields.map g).filter
      fun f => !f.isMref && f.targetEntity? = some entity).map (·.name) := by
  unfold columnsFor
  rw [List.filter_map, List.map_map]
  simp only [Function.comp_def, hname, hmref, htarget]

/-- Every entity keeps the columns that refer to another. -/
theorem columnsFor_bearing {e e' : Entity} (h : SameBearing e e') (entity : String) :
    columnsFor e' entity = columnsFor e entity := by
  have hcolumns := fun e => columnsFor_map Field.name_bearing Field.isMref_bearing
    Field.targetEntity?_bearing e entity
  rw [hcolumns, h.1, ← hcolumns]

theorem remoteColumn?_ok {e : Entity} {name entity : String} {declared : Option String}
    (h : remoteColumn? e entity declared = some name) : e.HasColumn name entity := by
  unfold remoteColumn? at h
  rcases Option.or_eq_some_iff.mp h with h | ⟨_, h⟩
  · exact mem_columnsFor.mp (List.mem_of_find?_eq_some h)
  · exact mem_columnsFor.mp (List.mem_of_mem_head? h)

theorem localColumn?_ok {e : Entity} {name owner remote : String}
    (h : localColumn? e owner remote = some name) : e.HasColumn name owner ∧ name ≠ remote :=
  ⟨mem_columnsFor.mp (List.mem_of_find?_eq_some h), by simpa using List.find?_some h⟩

/-! ### Entities that are there -/

theorem bearing_showing (labels : List String) (f : Field) :
    (showing labels f).bearing = f.bearing := Field.bearing_mapTarget f fun _ => rfl

theorem bearing_through (localId remoteId : String) (f : Field) :
    (through localId remoteId f).bearing = f.bearing := Field.bearing_mapLink f _

/-- The entity whose column of that name shows these labels. -/
def showIn (remote : String) (labels : List String) (e : Entity) : Entity :=
  { e with fields := changeFirst (·.name = remote) (showing labels) e.fields }

/-- The entity whose field at that place takes these columns. -/
def routeAt (index : Nat) (own remote : String) (e : Entity) : Entity :=
  { e with fields := e.fields.modify index (through own remote) }

theorem showIn_bearing (remote : String) (labels : List String) (e : Entity) :
    SameBearing e (showIn remote labels e) :=
  SameBearing.of_forall₂ <| forall₂_changeFirst (R := fun f f' : Field => f'.bearing = f.bearing)
    (fun _ => rfl) fun f _ => bearing_showing labels f

theorem routeAt_bearing (index : Nat) (own remote : String) (e : Entity) :
    SameBearing e (routeAt index own remote e) :=
  SameBearing.of_forall₂ <| forall₂_modify (R := fun f f' : Field => f'.bearing = f.bearing)
    (fun _ => rfl) fun f _ => bearing_through own remote f

variable {owner field : String} {index : Nat} {target : Target} {link : Link} {existing : Entity}

/-- A link entity that is there shows the labels of the field, and gives it its columns. -/
theorem reuse_ok (h : reuse m owner index field target link existing = .ok m') :
    ∃ remote own, remoteColumn? existing target.entity link.remoteId = some remote ∧
      localColumn? existing owner remote = some own ∧
      m' = (m.changeEntity existing.name (showIn remote target.labels)).changeEntity owner
        (routeAt index own remote) := by
  unfold reuse at h
  dsimp only at h
  split at h
  · next remote hremote =>
    split at h
    · next own hown =>
      cases h
      exact ⟨remote, own, hremote, hown, rfl⟩
    · cases h
  · cases h

theorem reuse_evolves (h : reuse m owner index field target link existing = .ok m') :
    Evolves SameBearing [] m m' := by
  obtain ⟨remote, own, _, _, rfl⟩ := reuse_ok h
  have hshown : Evolves SameBearing [] m
      (m.changeEntity existing.name (showIn remote target.labels)) :=
    .changeEntity isChange_sameBearing fun e _ => showIn_bearing remote target.labels e
  exact hshown.trans_nil isChange_sameBearing
    (.changeEntity isChange_sameBearing fun e _ => routeAt_bearing index own remote e)

/-! ### All of them -/

/-- The place of a many-to-many field: its entity, its number there, and its link. -/
structure Site where
  owner : String
  index : Nat
  link : String
  deriving DecidableEq, Repr

/-- The site of the field of this number, if it is many-to-many and names a link. -/
def siteAt (e : Entity) (index : Nat) : Option Site :=
  ((e.fields[index]?.bind (·.type.link?)).bind (·.name)).map (⟨e.name, index, ·⟩)

/-- What happens to a many-to-many field: its link entity is there, or it is made. -/
inductive Backed (dialect : Dialect) (m : Model) (site : Site) : List String → Model → Prop
  | reused {e f target link existing} {m' : Model} (owns : m.entity? site.owner = some e)
      (field : e.fields[site.index]? = some f) (type : f.type = .mref target link)
      (name : link.name = some site.link) (found : m.entity? site.link = some existing)
      (step : reuse m site.owner site.index f.name target link existing = .ok m') :
      Backed dialect m site [] m'
  | made {e f target link new} {m' : Model} (owns : m.entity? site.owner = some e)
      (field : e.fields[site.index]? = some f) (type : f.type = .mref target link)
      (name : link.name = some site.link)
      (step : make m dialect e f.name target link site.link = .ok new)
      (add : m.addEntity new = .ok m') : Backed dialect m site [site.link] m'

/-- Only a many-to-many field has a site. -/
theorem siteAt_eq_none {e : Entity} (h : ∀ f, e.fields[index]? = some f → f.isMref = false) :
    siteAt e index = none := by
  unfold siteAt
  cases hf : e.fields[index]? with
  | none => rfl
  | some f =>
    have hmref := h f hf
    rcases f with ⟨_, _, type⟩
    cases type <;> first | rfl | cases hmref

/-- A field that is not many-to-many is left alone; others have to name their links. -/
theorem back_cases {made : List String} {e : Entity} (he : m.entity? owner = some e)
    (h : Ends (back dialect owner index) m made m') :
    ((∀ f, e.fields[index]? = some f → f.isMref = false) ∧ made = [] ∧ m' = m) ∨
      ∃ site, siteAt e index = some site ∧ Backed dialect m site made m' := by
  obtain rfl := Model.entity?_name he
  unfold back at h
  have h := h.get_bind
  rw [he] at h
  dsimp only at h
  split at h
  · next f hf =>
    split at h
    · next target link htype =>
      split at h
      · next name hname =>
        have hsite : siteAt e index = some ⟨e.name, index, name⟩ := by
          simp [siteAt, hf, htype, FieldType.link?, hname]
        refine .inr ⟨_, hsite, ?_⟩
        split at h
        · next existing hexisting =>
          obtain ⟨m₁, hreuse, h⟩ := h.lift_bind
          obtain ⟨rfl, rfl⟩ := h.set_bind.pure
          exact .reused he hf htype hname hexisting (Except.mapError_ok hreuse)
        · obtain ⟨new, hmake, h⟩ := h.lift_bind
          obtain ⟨m₁, hadd, h⟩ := h.lift_bind
          obtain ⟨rfl, rfl⟩ := h.set_bind.pure
          exact .made he hf htype hname hmake (Except.mapError_ok hadd)
      · exact h.throw.elim
    · next hmref =>
      obtain ⟨rfl, rfl⟩ := h.pure
      refine .inl ⟨fun g hg => ?_, rfl, rfl⟩
      rw [hf] at hg
      cases hg
      rcases f with ⟨_, _, type⟩
      cases type <;> first | rfl | exact (hmref _ _ rfl).elim
  · next hnone =>
    obtain ⟨rfl, rfl⟩ := h.pure
    exact .inl ⟨fun f hf => (hnone f hf).elim, rfl, rfl⟩

/-- What is true of each field that is backed, in its own turn, is true of the pass. -/
theorem synthesize_rel (R : List String → Model → Model → Prop) (hrefl : ∀ m, R [] m m)
    (htrans : ∀ {as bs m₁ m₂ m₃}, R as m₁ m₂ → R bs m₂ m₃ → R (as ++ bs) m₁ m₃)
    (hstep : ∀ {site made m m'}, Backed dialect m site made m' → R made m m')
    {made : List String} (h : Ends (synthesize dialect) m made m') : R made m m' := by
  have hback : ∀ {owner index made m m'}, Ends (back dialect owner index) m made m' →
      R made m m' := by
    intro owner index made m m' h
    cases he : m.entity? owner with
    | none =>
      unfold back at h
      have h := h.get_bind
      rw [he] at h
      obtain ⟨rfl, rfl⟩ := h.pure
      exact hrefl _
    | some e =>
      rcases back_cases he h with ⟨-, rfl, rfl⟩ | ⟨_, -, hbacked⟩
      · exact hrefl m'
      · exact hstep hbacked
  obtain ⟨mades, m₁, hloop, h⟩ := h.get_bind.bind
  obtain ⟨rfl, rfl⟩ := h.pure
  refine hloop.mapM_rel R hrefl htrans fun owner _ made m m' h => ?_
  have h := h.get_bind
  split at h
  · split at h
    · obtain ⟨rfl, rfl⟩ := h.pure
      exact hrefl _
    · obtain ⟨mades, m₁, hloop, h⟩ := h.bind
      obtain ⟨rfl, rfl⟩ := h.pure
      exact hloop.mapM_rel R hrefl htrans fun _ _ _ _ _ => hback
  · obtain ⟨rfl, rfl⟩ := h.pure
    exact hrefl _

/-- Every entity keeps its bearing; behind them stand those that are reported. -/
theorem synthesize_evolves {made : List String} (h : Ends (synthesize dialect) m made m') :
    Evolves SameBearing made m m' := by
  refine synthesize_rel (fun made => Evolves SameBearing made) (.refl isChange_sameBearing)
    (fun h₁ h₂ => h₁.trans isChange_sameBearing h₂) (fun hbacked => ?_) h
  cases hbacked with
  | reused _ _ _ _ _ hreuse => exact reuse_evolves hreuse
  | made _ _ _ _ hmake hadd => exact make_name hmake ▸ .addEntity isChange_sameBearing hadd

end Link

end EntitySchema
