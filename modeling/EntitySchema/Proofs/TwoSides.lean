import EntitySchema.Proofs.ApartEntities
import EntitySchema.Proofs.JoinEntities

/-! The two sides of a relation. Fields of two entities that refer to each other by one
link take their columns from one entity. When that is made, whoever makes it and in
whatever order, and both keys are single fields, it has one column for each of the two
entities, so that each field has for its own column what the other has for the remote
one. Neither declared columns nor field names that stand twice make a difference. -/

namespace EntitySchema

open Model (Evolves)
open Entity (IsChange SameBearing SameOutline isChange_eq isChange_sameBearing
  isChange_sameOutline)

variable {m m' m₀ : Model} {e e' : Entity} {f f' : Field} {dialect : Dialect}

/-! ### What rounds never change -/

namespace Field

/-- The bearing of the field, and the name of its link. -/
def course (f : Field) : Field × Option String := (f.bearing, f.linkName?)

theorem course_showing (labels : List String) (f : Field) :
    (Link.showing labels f).course = f.course := by
  rcases f with ⟨_, _, type⟩
  cases type <;> rfl

theorem course_through (own remote : String) (f : Field) :
    (Link.through own remote f).course = f.course := by
  rcases f with ⟨_, _, type⟩
  cases type <;> rfl

end Field

namespace Entity

/-- The same entity up to labels, and up to the columns of links. -/
def SameCourse (e e' : Entity) : Prop :=
  e'.fields.map Field.course = e.fields.map Field.course ∧ { e' with fields := [] } =
    { e with fields := [] }

theorem isChange_sameCourse : IsChange SameCourse := isChange_sameBy Field.course

theorem SameCourse.of_forall₂ {fields : List Field}
    (h : List.Forall₂ (fun f f' => f'.course = f.course) e.fields fields) :
    SameCourse e { e with fields } := SameBy.of_forall₂ h

theorem SameCourse.forall₂ (h : SameCourse e e') :
    List.Forall₂ (fun f f' => f'.course = f.course) e.fields e'.fields := SameBy.forall₂ h

theorem SameCourse.sameBearing (h : SameCourse e e') : SameBearing e e' :=
  SameBy.mono (fun _ _ h => (Prod.mk.inj h).1) h

end Entity

open Entity (SameCourse isChange_sameCourse)

namespace Link

variable {site : Site} {target : Target} {link : Link} {made : List String}
  {rounds : List Site} {owner name a b : String} {index : Nat}

theorem keepsSites_sameCourse : KeepsSites SameCourse where
  toIsChange := isChange_sameCourse
  isAbstract h := (congrArg Entity.isAbstract h.2 :)
  fields h := h.forall₂.imp fun f f' h => by
    obtain ⟨hbearing, hlink⟩ := Prod.mk.inj h
    exact ⟨Field.isMref_of_bearing hbearing, hlink⟩

theorem Backed.course (h : Backed dialect m site made m') : Evolves SameCourse made m m' := by
  cases h with
  | @reused _ _ target _ existing _ _ _ _ _ _ hreuse =>
    obtain ⟨remote, own, -, -, rfl⟩ := reuse_ok hreuse
    have hshown : Evolves SameCourse [] m
        (m.changeEntity existing.name (showIn remote target.labels)) :=
      .changeEntity isChange_sameCourse fun e _ => SameCourse.of_forall₂ <|
        forall₂_changeFirst (R := fun f f' : Field => f'.course = f.course) (fun _ => rfl)
          fun f _ => Field.course_showing target.labels f
    exact hshown.trans_nil isChange_sameCourse <|
      .changeEntity isChange_sameCourse fun e _ => SameCourse.of_forall₂ <|
        forall₂_modify (R := fun f f' : Field => f'.course = f.course) (fun _ => rfl)
          fun f _ => Field.course_through own remote f
  | made _ _ _ _ hmake hadd => exact make_name hmake ▸ .addEntity isChange_sameCourse hadd

theorem Rounds.course (h : Rounds dialect rounds m made m') : Evolves SameCourse made m m' :=
  (h.evolves keepsSites_sameCourse (P := fun _ => True) (fun _ backed => ⟨backed.course, trivial⟩)
    trivial).1

/-! ### Links in their places -/

/-- The link of the field of this number of the entity of this name. -/
def linkIn? (m : Model) (owner : String) (index : Nat) : Option Link :=
  (m.entity? owner).bind fun e => e.fields[index]?.bind (·.type.link?)

theorem linkIn?_changeEntity {change : Entity → Entity} (h : linkIn? m owner index = some link)
    (hname : ∀ e, (change e).name = e.name)
    (hkeep : owner = name → ∀ e, (change e).fields[index]?.bind (·.type.link?) =
      e.fields[index]?.bind (·.type.link?)) :
    linkIn? (m.changeEntity name change) owner index = some link := by
  obtain ⟨e, he, hlink⟩ := Option.bind_eq_some_iff.mp h
  by_cases howner : owner = name
  · rw [howner] at he ⊢
    unfold linkIn?
    rw [Model.entity?_changeEntity he (hname e), Option.bind_some, hkeep howner, hlink]
  · obtain ⟨e', he', -, hsame⟩ :=
      (Evolves.changeEntity_onlyAt hname).entity? (Entity.isChange_onlyAt name) he
    obtain rfl := hsame (Model.entity?_name he ▸ howner)
    unfold linkIn?
    rw [he', Option.bind_some, hlink]

theorem link?_showIn (remote : String) (labels : List String) (e : Entity) (index : Nat) :
    (showIn remote labels e).fields[index]?.bind (·.type.link?) =
      e.fields[index]?.bind (·.type.link?) := by
  have hlinks : (showIn remote labels e).fields.map (·.type.link?) =
      e.fields.map (·.type.link?) := by
    refine changeFirst_map _ (fun f _ => ?_) e.fields
    cases f with
    | mk name label type => cases type <;> rfl
  have hget := congrArg (fun links => links[index]?.bind id) hlinks
  simpa [Option.bind_map, Function.comp_def] using hget

theorem link?_routeAt {own remote : String} {i : Nat} (hother : i ≠ index) (e : Entity) :
    (routeAt i own remote e).fields[index]?.bind (·.type.link?) =
      e.fields[index]?.bind (·.type.link?) := by
  simp [routeAt, hother]

/-- A round leaves the links at other places alone. -/
theorem Backed.keeps_link (h : Backed dialect m site made m')
    (hlink : linkIn? m owner index = some link)
    (hother : (site.owner, site.index) ≠ (owner, index)) :
    linkIn? m' owner index = some link := by
  cases h with
  | @reused _ _ target _ existing _ _ _ _ _ _ hreuse =>
    obtain ⟨remote, own, -, -, rfl⟩ := reuse_ok hreuse
    have hshown : linkIn? (m.changeEntity existing.name (showIn remote target.labels)) owner
        index = some link :=
      linkIn?_changeEntity hlink (fun _ => rfl) fun _ e => link?_showIn remote _ e index
    refine linkIn?_changeEntity hshown (fun _ => rfl) fun howner e => ?_
    have hindex : site.index ≠ index := fun hindex => hother (by rw [howner, hindex])
    exact link?_routeAt hindex e
  | made _ _ _ _ _ hadd =>
    obtain ⟨e, he, hfield⟩ := Option.bind_eq_some_iff.mp hlink
    have hsame : Evolves Eq _ m m' := .addEntity isChange_eq hadd
    obtain ⟨_, he', rfl⟩ := hsame.entity? isChange_eq he
    unfold linkIn?
    rw [he', Option.bind_some, hfield]

/-- An entity that is made stands apart, and its first key is its number. -/
structure NewLink (e : Entity) : Prop where
  parents : e.parents = []
  implements : e.implements = []
  key : e.keys.head? = some { fields := [keyName] }

theorem make_newLink {new : Entity} {field : String}
    (h : make m dialect e field target link name = .ok new) : NewLink new := by
  obtain ⟨_, _, -, -, -, hcolumns⟩ := make_ok h
  rw [withColumns_ok hcolumns]
  exact ⟨rfl, rfl, rfl⟩

theorem NewLink.course (h : NewLink e) (hsame : SameCourse e e') : NewLink e' where
  parents := (congrArg Entity.parents hsame.2 :).trans h.parents
  implements := (congrArg Entity.implements hsame.2 :).trans h.implements
  key := (congrArg (·.keys.head?) hsame.2 :).trans h.key

end Link

/-! ### Keys along the run -/

namespace Link

variable {site : Site} {target : Target} {link : Link} {made : List String}
  {rounds : List Site} {owner name a b : String} {index : Nat}

/-- A model on the way: the entities that it began with, up to their courses, and others
that were made. -/
def Underway (m₀ m : Model) : Prop :=
  ∃ made, Evolves SameCourse made m₀ m ∧ ∀ e ∈ m.entities, e.name ∈ made → NewLink e

theorem Underway.refl (m : Model) : Underway m m :=
  ⟨[], .refl isChange_sameCourse m, fun _ _ hname => (List.not_mem_nil hname).elim⟩

theorem Underway.round (h : Underway m₀ m) (hbacked : Backed dialect m site made m') :
    Underway m₀ m' := by
  obtain ⟨others, hevolves, hnew⟩ := h
  have hcourse := hbacked.course
  refine ⟨others ++ made, hevolves.trans isChange_sameCourse hcourse, fun e' he' hname => ?_⟩
  by_cases hfresh : e'.name ∈ made
  · cases hbacked with
    | reused => cases hfresh
    | made _ _ _ _ hmake hadd =>
      obtain ⟨hfree, rfl⟩ := Model.addEntity_ok hadd
      rcases List.mem_append.mp he' with he' | he'
      · -- an entity that was there does not have the new name
        rw [make_name hmake, ← List.mem_singleton.mp hfresh] at hfree
        have hthere : m.hasEntity e'.name = true :=
          List.any_eq_true.mpr ⟨e', he', by simp⟩
        rw [hthere] at hfree
        cases hfree
      · exact List.mem_singleton.mp he' ▸ make_newLink hmake
  · obtain ⟨e, he, hsame⟩ := (hcourse.mem he').resolve_right hfresh
    have hname := (List.mem_append.mp hname).resolve_right hfresh
    rw [isChange_sameCourse.name hsame] at hname
    exact (hnew e he hname).course hsame

/-- The field of this number has columns of the entity of its link, one for its owner and
one for the entity that it refers to. -/
structure Holds (m : Model) (owner : String) (index : Nat) (name target own remote : String)
    (j : Entity) : Prop where
  link : linkIn? m owner index = some ⟨name, own, remote⟩
  found : m.entity? name = some j
  own : own ∈ columnsFor j owner
  remote : remote ∈ columnsFor j target

theorem Holds.round {entity own remote : String} {j : Entity}
    (h : Holds m owner index name entity own remote j) (hbacked : Backed dialect m site made m')
    (hother : (site.owner, site.index) ≠ (owner, index)) :
    ∃ j', Holds m' owner index name entity own remote j' := by
  obtain ⟨j', hj', hsame⟩ := hbacked.course.entity? isChange_sameCourse h.found
  have hcolumns := columnsFor_bearing hsame.sameBearing
  exact ⟨j', hbacked.keeps_link h.link hother, hj', hcolumns owner ▸ h.own,
    hcolumns entity ▸ h.remote⟩

end Link

end EntitySchema
