import EntitySchema.Proofs.Completion
import EntitySchema.Proofs.LinkEntities

/-! Where fields lead. The heading of a field is the field without what is shown for its
target: the entity that it refers to stays, and so does the link. Resolving references
changes no heading, and the last passes only put fields behind those that are there; so
the columns of an entity stay in their order. -/

namespace EntitySchema

open Model (Evolves)
open Entity (Adds IsChange)

variable {m m' : Model} {name entity : String} {e e' : Entity} {f f' : Field}

/-! ### Headings -/

/-- The type without the field referred to and the labels. -/
def FieldType.heading : FieldType → FieldType
  | .xref target => .xref { entity := target.entity }
  | .mref target link => .mref { entity := target.entity } link
  | other => other

namespace Field

/-- The field without the field that it refers to, and the labels. -/
def heading (f : Field) : Field := { f with type := f.type.heading }

theorem outline_of_heading (h : f'.heading = f.heading) : f'.outline = f.outline := by
  have houtline : ∀ f : Field, f.heading.outline = f.outline := by
    rintro ⟨_, _, type⟩
    cases type <;> rfl
  rw [← houtline, h, houtline]

@[simp] theorem name_heading (f : Field) : f.heading.name = f.name := rfl

@[simp] theorem targetEntity?_heading (f : Field) : f.heading.targetEntity? = f.targetEntity? := by
  rcases f with ⟨_, _, type⟩
  cases type <;> rfl

@[simp] theorem isMref_heading (f : Field) : f.heading.isMref = f.isMref := by
  rcases f with ⟨_, _, type⟩
  cases type <;> rfl

theorem heading_mapTarget (f : Field) {change : Target → Target}
    (h : ∀ t, (change t).entity = t.entity) :
    { f with type := f.type.mapTarget change }.heading = f.heading := by
  rcases f with ⟨_, _, type⟩
  cases type <;> simp [heading, FieldType.mapTarget, FieldType.heading, h]

end Field

theorem Reference.resolveField_heading {owner : Entity} (h : resolveField m owner f = .ok f') :
    f'.heading = f.heading := by
  unfold resolveField at h
  split at h
  · obtain ⟨t, ht, h⟩ := Except.bind_ok h
    cases h
    obtain ⟨declared, hdeclared, hentity⟩ := resolve_entity ht
    rcases f with ⟨_, _, type⟩
    cases type <;> simp_all [Field.target?, FieldType.target?, Field.heading,
      FieldType.withTarget, FieldType.heading]
  · cases h
    rfl

theorem FieldCase.heading_corrected (f : Field) :
    (corrected f).heading = lowerField f.heading := by
  rcases f with ⟨_, _, type⟩
  cases type <;> rfl

/-! ### Entities -/

namespace Entity

/-- The entity keeps its fields in their places, and may get others behind them. -/
structure Prolongs (e e' : Entity) : Prop where
  name : e'.name = e.name
  isAbstract : e'.isAbstract = e.isAbstract
  fields : e.fields.map Field.heading <+: e'.fields.map Field.heading

theorem isChange_prolongs : IsChange Prolongs where
  refl _ := ⟨rfl, rfl, List.prefix_refl _⟩
  trans h₁ h₂ := ⟨h₂.name.trans h₁.name, h₂.isAbstract.trans h₁.isAbstract,
    h₁.fields.trans h₂.fields⟩
  name h := h.name

theorem Prolongs.of_forall₂ {fields : List Field}
    (h : List.Forall₂ (fun f f' => f'.heading = f.heading) e.fields fields) :
    Prolongs e { e with fields } where
  name := rfl
  isAbstract := rfl
  fields := by
    have hsame : fields.map Field.heading = e.fields.map Field.heading :=
      map_eq_of_forall₂ (R := fun f f' => f'.heading = f.heading) (fun _ _ h => h) h
    exact hsame ▸ List.prefix_refl _

theorem Adds.prolongs (h : Adds e e') : Prolongs e e' :=
  ⟨h.name, h.isAbstract, h.own.map Field.heading⟩

theorem Prolongs.field (h : Prolongs e e') (hf : f ∈ e.fields) :
    ∃ f' ∈ e'.fields, f'.heading = f.heading :=
  List.mem_map.mp (h.fields.subset (List.mem_map_of_mem hf))

/-- The columns of the entity stay in their order, before those that it gets. -/
theorem Prolongs.columnsFor (h : Prolongs e e') (entity : String) :
    Link.columnsFor e entity <+: Link.columnsFor e' entity := by
  have hcolumns := fun e => Link.columnsFor_map Field.name_heading Field.isMref_heading
    Field.targetEntity?_heading e entity
  rw [hcolumns, hcolumns]
  exact (h.fields.filter _).map _

end Entity

open Entity (Prolongs SameBy isChange_prolongs isChange_sameBy)

/-! ### Passes -/

/-- Resolving references changes no heading. -/
theorem Reference.resolveEntities_heading {names : List String} {u : Unit}
    (h : Ends (resolveEntities names) m u m') : Evolves (SameBy Field.heading) [] m m' := by
  refine .forM (isChange_sameBy _) (fun _ _ m m' hstep => ?_) h
  refine Evolves.tryEntity (isChange_sameBy _) (Pass.step_ends hstep) fun e e' _ he => ?_
  obtain ⟨fields, hfields, he⟩ := Except.bind_ok he
  cases he
  exact SameBy.of_forall₂ ((Except.mapM_ok (Except.mapError_ok hfields)).imp
    fun _ _ => resolveField_heading)

theorem Reference.resolveEntities_prolongs {names : List String} {u : Unit}
    (h : Ends (resolveEntities names) m u m') : Evolves Prolongs [] m m' :=
  (resolveEntities_heading h).mono fun _ _ h =>
    ⟨(isChange_sameBy _).name h, (congrArg Entity.isAbstract h.2 :), h.1 ▸ List.prefix_refl _⟩

theorem Reference.relabel_entity (m : Model) (t : Target) : (relabel m t).entity = t.entity := by
  unfold relabel
  split
  · split
    · cases (m.entity? t.entity).bind (·.labels) <;> rfl
    · rfl
  · rfl

theorem Reference.propagateLabels_prolongs (m : Model) :
    Evolves Prolongs [] m (propagateLabels m) := by
  refine .map rfl fun e _ => Prolongs.of_forall₂ ?_
  rw [List.forall₂_map_right_iff]
  exact List.forall₂_same.mpr fun f _ => Field.heading_mapTarget f (relabel_entity m)

namespace Pass

theorem completeTables_prolongs {options : Options} (hnodup : m.entityNames.Nodup)
    (h : Ends (completeTables options) m () m') : ∃ added, Evolves Prolongs added m m' := by
  obtain ⟨added, hadds⟩ := (completeTables_extension hnodup h).adds
  exact ⟨added, (Reference.propagateLabels_prolongs m).trans isChange_prolongs
    (hadds.mono fun _ _ h => h.prolongs)⟩

/-- A field keeps its heading in lower case while references are completed. -/
theorem completeReferences_heading (h : Ends completeReferences m () m')
    (he : m.entity? name = some e) : ∃ e', m'.entity? name = some e' ∧
      e'.isAbstract = e.isAbstract ∧
      ∀ f ∈ e.fields, ∃ f' ∈ e'.fields, f'.heading = FieldCase.lowerField f.heading := by
  obtain ⟨m₁, m₂, m₃, hfirst, hcase, hsecond, heq⟩ := completeReferences_steps h
  obtain ⟨e₁, he₁, hsame₁⟩ :=
    (Reference.resolveEntities_prolongs hfirst.get_bind).entity? isChange_prolongs he
  have he₂ := FieldCase.correct_entity? hcase he₁
  obtain ⟨e₃, he₃, hsame₃⟩ :=
    (Reference.resolveEntities_prolongs hsecond.get_bind).entity? isChange_prolongs he₂
  refine ⟨e₃, by rwa [Model.entity?, heq], hsame₃.isAbstract.trans hsame₁.isAbstract,
    fun f hf => ?_⟩
  obtain ⟨f₁, hf₁, hheading₁⟩ := hsame₁.field hf
  obtain ⟨f₃, hf₃, hheading₃⟩ := hsame₃.field (List.mem_map_of_mem hf₁)
  exact ⟨f₃, hf₃, by rw [hheading₃, FieldCase.heading_corrected, hheading₁]⟩

end Pass

end EntitySchema
