import EntitySchema.Link.Name
import EntitySchema.Proofs.Growth

/-! Naming links. The names of links and columns, and the targets of many-to-many
fields that declare none, are filled in. A round does so in one place; the other fields
stay as they are, and what is filled in leaves outlines alone. -/

namespace EntitySchema

open Model (Evolves)

variable {e e' : Entity} {f f' : Field}

/-! ### Fields and entities up to links -/

/-- The type without what a many-to-many field refers to. -/
def FieldType.unlinked : FieldType → FieldType
  | .mref _ _ => .mref { entity := "" } {}
  | other => other

namespace Field

/-- The field without what it refers to, if it is many-to-many. -/
def unlinked (f : Field) : Field := { f with type := f.type.unlinked }

theorem outline_of_unlinked (h : f'.unlinked = f.unlinked) : f'.outline = f.outline := by
  have houtline : ∀ f : Field, f.unlinked.outline = f.outline := by
    rintro ⟨_, _, type⟩
    cases type <;> rfl
  rw [← houtline, h, houtline]

theorem unlinked_of_not_mref (h : f.isMref = false) : f.unlinked = f := by
  rcases f with ⟨_, _, type⟩
  cases type <;> first | rfl | cases h

theorem eq_of_unlinked (h : f'.unlinked = f.unlinked) (hmref : f.isMref = false) : f' = f := by
  have hmref' : f'.isMref = false := (isMref_of_outline (outline_of_unlinked h)).trans hmref
  rw [← unlinked_of_not_mref hmref', h, unlinked_of_not_mref hmref]

end Field

namespace Entity

/-- The same entity up to what many-to-many fields refer to. -/
def SameUnlinked : Entity → Entity → Prop := SameBy Field.unlinked

theorem isChange_sameUnlinked : IsChange SameUnlinked := isChange_sameBy Field.unlinked

theorem SameUnlinked.sameOutline (h : SameUnlinked e e') : SameOutline e e' :=
  SameBy.mono (fun _ _ => Field.outline_of_unlinked) h

end Entity

open Entity (SameBy SameOutline SameUnlinked isChange_sameUnlinked)

namespace Link

variable {m m' : Model} {dialect : Dialect} {taken taken' : List String} {place other : Nat × Nat}
  {change : FieldType → FieldType}

/-! ### Fields in their places -/

/-- The field at a place. -/
def fieldAt? (m : Model) (place : Nat × Nat) : Option Field :=
  m.entities[place.1]?.bind fun e => e.fields[place.2]?

theorem fieldAt?_changeType (hne : other ≠ place) :
    fieldAt? (changeType place change m) other = fieldAt? m other := by
  unfold fieldAt? changeType
  rw [List.getElem?_modify]
  cases m.entities[other.1]? with
  | none => rfl
  | some e =>
    by_cases howner : place.1 = other.1
    · have hindex : place.2 ≠ other.2 := fun hindex => hne (Prod.ext howner hindex).symm
      simp [howner, hindex]
    · simp [howner]

theorem fieldAt?_changeType_self (h : fieldAt? m place = some f) :
    fieldAt? (changeType place change m) place = some { f with type := change f.type } := by
  obtain ⟨e, he, hf⟩ := Option.bind_eq_some_iff.mp h
  simp [fieldAt?, changeType, he, hf]

/-- A many-to-many field stays one, whatever it refers to then. -/
theorem changeType_unlinked {target : Target} {link : Link} (hf : fieldAt? m place = some f)
    (hmref : f.isMref = true) :
    Evolves SameUnlinked [] m (changeType place (fun _ => .mref target link) m) := by
  refine .of_forall₂ (forall₂_modify isChange_sameUnlinked.refl fun e he => ?_)
  refine SameBy.of_forall₂ <|
    forall₂_modify (R := fun f f' : Field => f'.unlinked = f.unlinked) (fun _ => rfl) fun g hg => ?_
  obtain rfl : g = f := by simpa [fieldAt?, he, hg] using hf
  rcases g with ⟨_, _, type⟩
  cases type <;> first | rfl | cases hmref

/-! ### One field -/

/-- What is filled in: the name of the link, the target if none was declared, and the columns;
the one for the owner is declared and another one than that for the target, or made up. -/
theorem complete_cases {owner field name : String} {target target' : Target} {link link' : Link}
    (h : complete m dialect taken owner field target link = .ok (target', link', name)) :
    ∃ localId remoteId, linkName dialect taken owner field link.name = .ok name ∧
      target' = { target with entity := target'.entity } ∧
      (target.entity ≠ "" ∧ target'.entity = target.entity ∨ target.entity = "" ∧
        inferTarget? m owner field name link.remoteId = some target'.entity) ∧
      remoteId = link.remoteId.getD target'.entity ∧
      (link.localId = some localId ∧ localId ≠ remoteId ∨
        link.localId = none ∧ localId = ownColumn owner remoteId dialect) ∧
      link' = ⟨some name, some localId, some remoteId⟩ := by
  obtain ⟨named, hnamed, h⟩ := Except.bind_ok h
  simp only [pure_bind] at h
  -- the target is declared or found, and so is the column for the owner
  split at h
  · next hdeclared =>
    split at h
    · next column hcolumn =>
      split at h
      · cases h
      · next hother =>
        cases h
        exact ⟨column, _, hnamed, rfl, .inl ⟨hdeclared, rfl⟩, rfl, .inl ⟨hcolumn, hother⟩, rfl⟩
    · next hnone =>
      cases h
      exact ⟨_, _, hnamed, rfl, .inl ⟨hdeclared, rfl⟩, rfl, .inr ⟨hnone, rfl⟩, rfl⟩
  · next hempty =>
    have hempty : target.entity = "" := by simpa using hempty
    split at h
    · next found hfound =>
      split at h
      · next column hcolumn =>
        split at h
        · cases h
        · next hother =>
          cases h
          exact ⟨column, _, hnamed, rfl, .inr ⟨hempty, hfound⟩, rfl, .inl ⟨hcolumn, hother⟩, rfl⟩
      · next hnone =>
        cases h
        exact ⟨_, _, hnamed, rfl, .inr ⟨hempty, hfound⟩, rfl, .inr ⟨hnone, rfl⟩, rfl⟩
    · cases h

/-! ### One round -/

/-- What a round does at its place: a many-to-many field gets what its document leaves out;
where no such field is, nothing happens. -/
inductive Completes (dialect : Dialect) (taken : List String) (place : Nat × Nat) (m : Model) :
    List String → Model → Prop
  | filled {e : Entity} {f : Field} {target target' : Target} {link link' : Link} {name : String}
      (owner : m.entities[place.1]? = some e) (at_place : fieldAt? m place = some f)
      (type : f.type = .mref target link)
      (complete : complete m dialect taken e.name f.name target link = .ok (target', link', name)) :
      Completes dialect taken place m (name :: taken)
        (changeType place (fun _ => .mref target' link') m)
  | skipped (no_mref : ∀ f, fieldAt? m place = some f → f.isMref = false) :
      Completes dialect taken place m taken m

theorem completeAt_cases (h : Ends (completeAt dialect taken place) m taken' m') :
    Completes dialect taken place m taken' m' := by
  unfold completeAt at h
  have h := h.get_bind
  split at h
  · next e he =>
    split at h
    · next f hf =>
      have hplace : fieldAt? m place = some f := by simp [fieldAt?, he, hf]
      split at h
      · next target link htype =>
        obtain ⟨⟨target', link', name⟩, hcomplete, h⟩ := h.lift_bind
        obtain ⟨rfl, rfl⟩ := (Pass.change_bind h).pure
        exact .filled he hplace htype hcomplete
      · next hother =>
        obtain ⟨rfl, rfl⟩ := h.pure
        refine .skipped fun g hg => ?_
        obtain rfl : f = g := Option.some.inj (hplace.symm.trans hg)
        rcases f with ⟨_, _, type⟩
        cases type <;> first | rfl | exact (hother _ _ rfl).elim
    · next hnone =>
      obtain ⟨rfl, rfl⟩ := h.pure
      exact .skipped fun g hg => absurd (by simpa [fieldAt?, he] using hg) (hnone g)
  · next hnone =>
    obtain ⟨rfl, rfl⟩ := h.pure
    refine .skipped fun g hg => ?_
    obtain ⟨e, he, -⟩ := Option.bind_eq_some_iff.mp hg
    exact absurd he (hnone e)

theorem Completes.unlinked (h : Completes dialect taken place m taken' m') :
    Evolves SameUnlinked [] m m' := by
  cases h with
  | filled _ hplace htype _ =>
    exact changeType_unlinked hplace (Field.isMref_of_type htype)
  | skipped => exact .refl isChange_sameUnlinked m

/-- A round leaves the other places alone. -/
theorem Completes.elsewhere (h : Completes dialect taken place m taken' m') (hne : other ≠ place) :
    fieldAt? m' other = fieldAt? m other := by
  cases h with
  | filled => exact fieldAt?_changeType hne
  | skipped => rfl

/-! ### All rounds -/

theorem assignNames_unlinked {u : Unit} (h : Ends (assignNames dialect) m u m') :
    Evolves SameUnlinked [] m m' := by
  obtain ⟨_, m₁, hloop, h⟩ := h.get_bind.bind
  obtain ⟨rfl, rfl⟩ := h.pure
  exact .foldlM isChange_sameUnlinked (fun _ _ _ _ _ _ h => (completeAt_cases h).unlinked) hloop

theorem assignNames_outline {u : Unit} (h : Ends (assignNames dialect) m u m') :
    Evolves SameOutline [] m m' := (assignNames_unlinked h).mono fun _ _ h => h.sameOutline

end Link

end EntitySchema
