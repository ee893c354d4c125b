import EntitySchema.Proofs.KeyPasses
import EntitySchema.Proofs.Layers

/-! Many-to-many fields that move. They leave the interfaces for the entities with
tables that implement these, so that such an entity still sees a field of each name
that it saw before: the same one, or one that moved. -/

namespace EntitySchema

open Relation (ReflTransGen)
open Model (Evolves)
open Entity (Gains IsChange SameStanding isChange_gains isChange_sameStanding)

variable {m m' : Model} {a name : String} {e : Entity} {f : Field} {dialect : Dialect}

/-! ### What moves -/

namespace Link

/-- A field that moved: many-to-many as the field of an entity that it was copied from. -/
def MovedFrom (m : Model) (f' : Field) : Prop :=
  ∃ e ∈ m.entities, ∃ f ∈ e.fields, ∃ target link,
    f' = { f with type := .mref target link, origin := .interfaceMref }

theorem move_moved {moved moved' : Moved} (h : move dialect e moved f = .ok moved') :
    moved'.copies = moved.copies ∨ f.isMref = true ∧ ∃ target link, moved'.copies =
      moved.copies ++ [{ f with type := .mref target link, origin := .interfaceMref }] := by
  rcases move_cases h with ⟨rfl, -⟩ | ⟨target, link, name, htype, -, -, rfl⟩
  · exact .inl rfl
  · exact .inr ⟨Field.isMref_of_type htype, target, _, rfl⟩

theorem moveAll_moved {taken : List String} {moved : Moved}
    (h : moveAll m dialect e taken = .ok moved) : ∀ f ∈ moved.copies, MovedFrom m f := by
  refine Except.foldlM_ok (fun moved : Moved => ∀ f ∈ moved.copies, MovedFrom m f)
    (fun f hf moved moved' hmove hmoved f' hf' => ?_) h (by simp)
  rcases move_moved hmove with hsame | ⟨-, target, link, hcopy⟩
  · exact hmoved f' (hsame ▸ hf')
  · rw [hcopy] at hf'
    rcases List.mem_append.mp hf' with hf' | hf'
    · exact hmoved f' hf'
    · obtain ⟨i, hi, hf⟩ := List.mem_flatMap.mp hf
      exact ⟨i, Model.entity?_mem (Model.mem_ownInterfaces.mp hi).1, f, hf, target, link,
        List.mem_singleton.mp hf'⟩

theorem stripInterfaces_mem {e' : Entity} (he' : e' ∈ (stripInterfaces m).entities) :
    ∃ e ∈ m.entities, Entity.Strips e e' ∧ e'.fields ⊆ e.fields := by
  obtain ⟨e, he, rfl⟩ := List.mem_map.mp he'
  refine ⟨e, he, rfl, ?_⟩
  split
  · exact List.filter_subset_self _
  · exact List.Subset.refl _

end Link

/-- The field moved to where it is. -/
def Field.IsMoved (f : Field) : Prop := f.isMref = true ∧ f.origin = .interfaceMref

namespace Entity

/-- The entity has no fields but those that it had and those that moved to it, and lacks
none but many-to-many ones if it is abstract. -/
structure Relocates (e e' : Entity) : Prop extends SameStanding e e' where
  keys : e'.keys = e.keys
  fields : ∀ f ∈ e'.fields, f ∈ e.fields ∨ f.IsMoved
  kept : ∀ f ∈ e.fields, f ∈ e'.fields ∨ e.isAbstract = true ∧ f.isMref = true

theorem isChange_relocates : IsChange Relocates where
  refl e := { isChange_sameStanding.refl e with
    keys := rfl, fields := fun _ hf => .inl hf, kept := fun _ hf => .inl hf }
  trans h₁ h₂ := { isChange_sameStanding.trans h₁.toSameStanding h₂.toSameStanding with
    keys := h₂.keys.trans h₁.keys
    fields := fun f hf => (h₂.fields f hf).elim (h₁.fields f) .inr
    kept := fun f hf => (h₁.kept f hf).elim (fun hf => h₁.isAbstract ▸ h₂.kept f hf) .inr }
  name h := h.name

theorem Strips.relocates {e e' : Entity} (h : Strips e e') : Relocates e e' := by
  refine { h.sameStanding with keys := ?_, fields := fun f hf => .inl ?_, kept := fun _ => h.field }
  all_goals subst h
  · split <;> rfl
  · split at hf
    · exact List.mem_of_mem_filter hf
    · exact hf

end Entity

open Entity (Relocates isChange_relocates)

namespace Link

theorem moveTo_relocates {taken taken' : List String}
    (h : Ends (moveTo dialect taken name) m taken' m') : Evolves Relocates [] m m' := by
  rcases moveTo_cases h with ⟨rfl, -⟩ | ⟨e, moved, -, -, hmoved, -, rfl⟩
  · exact .refl isChange_relocates m'
  · refine .changeEntity isChange_relocates fun e' _ => ?_
    refine { name := rfl, isAbstract := rfl, parents := rfl, implements := rfl, keys := rfl,
             fields := fun f hf => (List.mem_append.mp hf).imp_right fun hf => ?_,
             kept := fun f hf => .inl (List.mem_append_left _ hf) }
    obtain ⟨_, _, _, _, target, link, rfl⟩ := moveAll_moved hmoved f hf
    exact ⟨rfl, rfl⟩

theorem relocate_relocates {u : Unit} (h : Ends (relocate dialect) m u m') :
    Evolves Relocates [] m m' := by
  obtain ⟨_, moved, hloop, h⟩ := h.get_bind.bind
  obtain rfl := Pass.change_ends h
  have hrelocates : Evolves Relocates [] m moved :=
    .foldlM isChange_relocates (fun _ _ _ _ _ _ => moveTo_relocates) hloop
  exact hrelocates.trans_nil isChange_relocates
    (.map rfl fun e _ => Entity.Strips.relocates (e := e) rfl)

/-- In the end no abstract entity has a many-to-many field. -/
theorem relocate_stripped {u : Unit} {e' : Entity} (h : Ends (relocate dialect) m u m')
    (he' : e' ∈ m'.entities) (habstract : e'.isAbstract = true) :
    ∀ f ∈ e'.fields, f.isMref = false := by
  obtain ⟨_, moved, -, h⟩ := h.get_bind.bind
  obtain rfl := Pass.change_ends h
  obtain ⟨e, he, rfl⟩ := List.mem_map.mp he'
  by_cases hstripped : e.isAbstract = true
  · rw [if_pos hstripped]
    intro f hf
    simpa using (List.mem_filter.mp hf).2
  · rw [if_neg hstripped] at habstract
    exact absurd habstract hstripped

/-! ### Where it moves -/

/-- The entity of this name has a field of that name of its own. -/
def Owns (m : Model) (name field : String) : Prop :=
  ∃ e, m.entity? name = some e ∧ ∃ f ∈ e.fields, f.name = field

theorem Owns.gains {field : String} (h : Owns m name field) (hm : Evolves Gains [] m m') :
    Owns m' name field := by
  obtain ⟨e, he, f, hf, hname⟩ := h
  obtain ⟨e', he', front, back, keys, rfl⟩ := hm.entity? isChange_gains he
  exact ⟨_, he', f, by simp [hf], hname⟩

theorem move_ok {moved moved' : Moved} {f : Field} (h : move dialect e moved f = .ok moved') :
    (∀ g ∈ moved.copies, g ∈ moved'.copies) ∧
      (f.isMref = true → ∃ g ∈ e.fields ++ moved'.copies, g.name = f.name) := by
  rcases move_cases h with ⟨rfl, hthere⟩ | ⟨target, link, name, -, -, -, rfl⟩
  · refine ⟨fun _ h => h, fun hmref => ?_⟩
    simpa [Entity.hasField, List.mem_append, or_and_right, exists_or] using hthere hmref
  · refine ⟨fun g hg => List.mem_append_left _ hg, fun _ => ?_⟩
    simp only [List.mem_append, List.mem_singleton, or_and_right, exists_or, exists_eq_left]
    exact .inr (.inr trivial)

/-- Of each many-to-many field in turn, the entity or the copies have one of its name. -/
theorem moveEach_ok : ∀ {fields : List Field} {moved moved' : Moved},
    fields.foldlM (move dialect e) moved = .ok moved' →
    (∀ g ∈ moved.copies, g ∈ moved'.copies) ∧ ∀ f ∈ fields, f.isMref = true →
      ∃ g ∈ e.fields ++ moved'.copies, g.name = f.name
  | [], moved, moved', h => by cases h; exact ⟨fun _ h => h, by simp⟩
  | f :: rest, moved, moved', h => by
    obtain ⟨moved₁, hmove, h⟩ := Except.bind_ok h
    obtain ⟨hkept, hrest⟩ := moveEach_ok h
    obtain ⟨hcopies, hfirst⟩ := move_ok hmove
    refine ⟨fun g hg => hkept g (hcopies g hg), fun g hg hmref => ?_⟩
    rcases List.mem_cons.mp hg with rfl | hg
    · obtain ⟨g', hg', hname⟩ := hfirst hmref
      exact ⟨g', List.mem_append.mpr ((List.mem_append.mp hg').imp_right (hkept g')), hname⟩
    · exact hrest g hg hmref

/-- An entity with a table owns the many-to-many fields of its interfaces. -/
theorem moveTo_owns {taken taken' : List String} (h : Ends (moveTo dialect taken name) m taken' m')
    (he : m.entity? name = some e) (hconcrete : e.isAbstract = false) {i : Entity}
    (hi : i ∈ m.ownInterfaces name) {f : Field} (hf : f ∈ i.fields) (hmref : f.isMref = true) :
    Owns m' name f.name := by
  rcases moveTo_cases h with ⟨-, -, hall⟩ | ⟨e', moved, he', -, hmoved, -, rfl⟩
  · rw [hall e he] at hconcrete
    cases hconcrete
  · rw [he] at he'
    cases he'
    have hmem : f ∈ (m.ownInterfaces e.name).flatMap (·.fields) :=
      List.mem_flatMap.mpr ⟨i, Model.entity?_name he ▸ hi, hf⟩
    obtain ⟨g, hg, hname⟩ := (moveEach_ok hmoved).2 f hmem hmref
    exact ⟨_, Model.entity?_changeEntity he rfl, g, hg, hname⟩

theorem ownInterfaces_gains {i : Entity} (h : Evolves Gains [] m m')
    (hi : i ∈ m.ownInterfaces name) : ∃ i' ∈ m'.ownInterfaces name, Gains i i' := by
  obtain ⟨hi, hne, hpath⟩ := Model.mem_ownInterfaces.mp hi
  obtain ⟨i', hi', hgains⟩ := h.entity? isChange_gains hi
  have hname := isChange_gains.name hgains
  refine ⟨i', Model.mem_ownInterfaces.mpr ⟨hname ▸ hi', hname ▸ hne, ?_⟩, hgains⟩
  rw [Model.implements_standing (h.mono fun _ _ h => h.sameStanding), hname]
  exact hpath

/-- When the turn of an entity comes, it gets what its interfaces have. -/
theorem moveEachTo_owns {names taken taken' : List String} {i : Entity} {f : Field}
    (h : Ends (names.foldlM (moveTo dialect) taken) m taken' m') (hmem : name ∈ names)
    (he : m.entity? name = some e) (hconcrete : e.isAbstract = false)
    (hi : i ∈ m.ownInterfaces name) (hf : f ∈ i.fields) (hmref : f.isMref = true) :
    Owns m' name f.name := by
  induction names generalizing taken m e i with
  | nil => cases hmem
  | cons first rest ih =>
    rw [List.foldlM_cons] at h
    obtain ⟨taken₁, m₁, hstep, hrest⟩ := h.bind
    have hgains := moveTo_gains hstep
    rcases List.mem_cons.mp hmem with rfl | hmem
    · exact (moveTo_owns hstep he hconcrete hi hf hmref).gains (moveEachTo_gains hrest)
    · obtain ⟨e₁, he₁, hsame⟩ := hgains.entity? isChange_gains he
      obtain ⟨i₁, hi₁, hgrown⟩ := ownInterfaces_gains hgains hi
      have hf₁ : f ∈ i₁.fields := by
        obtain ⟨front, back, keys, rfl⟩ := hgrown
        simp [hf]
      exact ih hrest hmem he₁ (hsame.sameStanding.isAbstract.trans hconcrete) hi₁ hf₁

theorem relocate_owns {u : Unit} {i : Entity} (h : Ends (relocate dialect) m u m')
    (he : m.entity? name = some e) (hconcrete : e.isAbstract = false)
    (hi : i ∈ m.ownInterfaces name) (hf : f ∈ i.fields) (hmref : f.isMref = true) :
    Owns m' name f.name := by
  obtain ⟨_, moved, hloop, hstrip⟩ := h.get_bind.bind
  obtain rfl := Pass.change_ends hstrip
  obtain ⟨x, hx, g, hg, hname⟩ :=
    moveEachTo_owns hloop (Model.mem_entityNames.mpr ⟨e, he⟩) he hconcrete hi hf hmref
  obtain ⟨e', he', hgains⟩ := (moveEachTo_gains hloop).entity? isChange_gains he
  rw [hx] at he'
  cases he'
  obtain ⟨x', hx', hstrips⟩ := stripInterfaces_entity? hx
  refine ⟨x', hx', g, (hstrips.field hg).resolve_right fun ⟨habstract, _⟩ => ?_, hname⟩
  rw [hgains.sameStanding.isAbstract, hconcrete] at habstract
  cases habstract

/-! ### What is seen -/

/-- Every entity of a lineage is found again there, with the fields that it keeps. -/
theorem relocate_lineage {u : Unit} (h : Ends (relocate dialect) m u m') (he : e ∈ m.lineage a) :
    ∃ e' ∈ m'.lineage a, m'.entity? e.name = some e' ∧ Relocates e e' :=
  Model.mem_lineage_change isChange_relocates (fun _ _ h => h.toSameStanding)
    (relocate_relocates h) he

theorem relocate_keeps {u : Unit} (h : Ends (relocate dialect) m u m') (he : e ∈ m.lineage a)
    (hf : f ∈ e.fields) (hstays : e.isAbstract = true → f.isMref = false) :
    ∃ e' ∈ m'.lineage a, f ∈ e'.fields := by
  obtain ⟨e', he', -, hsame⟩ := relocate_lineage h he
  refine ⟨e', he', (hsame.kept f hf).resolve_right fun ⟨habstract, hmref⟩ => ?_⟩
  rw [hstays habstract] at hmref
  cases hmref

/-- A many-to-many field of an interface is taken over by an entity with a table on the way
to the interface. -/
theorem relocate_taken {u : Unit} {i : Entity} (hm : m.Layered) (h : Ends (relocate dialect) m u m')
    (he : m.entity? a = some e) (hconcrete : e.isAbstract = false) (hi : i ∈ m.lineage a)
    (habstract : i.isAbstract = true) (hf : f ∈ i.fields) (hmref : f.isMref = true) :
    ∃ x, m.entity? x.name = some x ∧ ReflTransGen m.Extends a x.name ∧ Owns m' x.name f.name := by
  obtain ⟨hi, c, hac, hcb⟩ := Model.mem_lineage.mp hi
  obtain ⟨x, hx, hxconcrete⟩ := hm.concrete_of_extends hac ⟨e, he, hconcrete⟩
  obtain rfl := Model.entity?_name hx
  have hne : i.name ≠ x.name := fun heq => by
    rw [heq, hx] at hi
    cases hi
    rw [habstract] at hxconcrete
    cases hxconcrete
  have hpath := (Relation.reflTransGen_iff_eq_or_transGen.mp hcb).resolve_left hne
  exact ⟨x, hx, hac,
    relocate_owns h hx hxconcrete (Model.mem_ownInterfaces.mpr ⟨hi, hne, hpath⟩) hf hmref⟩

/-- For every field that an entity with a table sees, its lineage has that field after
relocation, or one of that name that moved. -/
theorem relocate_shown {u : Unit} (hm : m.Layered) (h : Ends (relocate dialect) m u m')
    (he : m.entity? a = some e) (hconcrete : e.isAbstract = false) (hf : f ∈ m.allFields a) :
    ∃ x ∈ m'.lineage a, ∃ g ∈ x.fields, g.name = f.name ∧ (g = f ∨ g.IsMoved) := by
  by_cases hown : ∃ x, m.entity? x.name = some x ∧ ReflTransGen m.Extends a x.name ∧
      ∃ g ∈ x.fields, g.name = f.name
  · obtain ⟨x, hx, hpath, hf⟩ := Model.allFields_extends hf hown
    obtain ⟨x', hx', hxconcrete⟩ := hm.concrete_of_extends hpath ⟨e, he, hconcrete⟩
    rw [hx] at hx'
    cases hx'
    obtain ⟨x', hlineage, hf⟩ := relocate_keeps h (Model.mem_lineage.mpr ⟨hx, _, hpath, .refl⟩) hf
      (by simp [hxconcrete])
    exact ⟨x', hlineage, f, hf, rfl, .inl rfl⟩
  · obtain ⟨owner, howner, hf⟩ := Model.mem_allFields hf
    by_cases hstays : owner.isAbstract = true → f.isMref = false
    · obtain ⟨x', hlineage, hf⟩ := relocate_keeps h howner hf hstays
      exact ⟨x', hlineage, f, hf, rfl, .inl rfl⟩
    · obtain ⟨habstract, hmref⟩ := Classical.not_imp.mp hstays
      obtain ⟨x, hx, hpath, x', hx', g, hg, hname⟩ :=
        relocate_taken hm h he hconcrete howner habstract hf (by simpa using hmref)
      obtain ⟨x'', hlineage, hfound, hsame⟩ :=
        relocate_lineage h (Model.mem_lineage.mpr ⟨hx, x.name, hpath, .refl⟩)
      rw [hx'] at hfound
      cases hfound
      have hmoved := (hsame.fields g hg).resolve_left fun hg => hown ⟨x, hx, hpath, g, hg, hname⟩
      exact ⟨x', hlineage, g, hg, hname, .inr hmoved⟩

/-- Whoever has a table sees after relocation what it saw before. -/
theorem relocate_sees {u : Unit} {label : String} (hm : m.Layered)
    (h : Ends (relocate dialect) m u m') (he : m.entity? a = some e)
    (hconcrete : e.isAbstract = false) (hsees : m.Sees a label) : m'.Sees a label := by
  obtain ⟨f, hf, rfl⟩ := hsees
  obtain ⟨x, hx, g, hg, hname, -⟩ := relocate_shown hm h he hconcrete hf
  exact Model.sees_iff.mpr ⟨x, hx, g, hg, hname⟩

end Link

end EntitySchema
