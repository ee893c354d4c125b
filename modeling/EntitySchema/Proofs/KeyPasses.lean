import EntitySchema.Proofs.Discrimination

/-! From keys to relocated fields. Of what an entity owns, these passes take away the
field that gives way to a discriminator, and the many-to-many fields of interfaces;
everything else stays where it is. -/

namespace EntitySchema

open Model (Evolves)
open Entity (Gains SameStanding isChange_gains isChange_sameStanding)

variable {m m' : Model}

namespace Entity

/-- The same entity but for the labels it shows. -/
def Relabels (e e' : Entity) : Prop := { e' with labels := none } = { e with labels := none }

theorem isChange_relabels : IsChange Relabels where
  refl _ := rfl
  trans h₁ h₂ := Eq.trans h₂ h₁
  name h := (congrArg Entity.name h :)

theorem Relabels.fields {e e' : Entity} (h : Relabels e e') : e'.fields = e.fields :=
  (congrArg Entity.fields h :)

theorem Relabels.sameStanding {e e' : Entity} (h : Relabels e e') : SameStanding e e' :=
  ⟨isChange_relabels.name h, (congrArg Entity.isAbstract h :), (congrArg Entity.parents h :),
    (congrArg Entity.implements h :)⟩

/-- The entity without its many-to-many fields, if it is abstract. -/
def Strips (e e' : Entity) : Prop :=
  e' = if e.isAbstract then { e with fields := e.fields.filter (!·.isMref) } else e

theorem Strips.sameStanding {e e' : Entity} (h : Strips e e') : SameStanding e e' := by
  subst h
  split <;> exact ⟨rfl, rfl, rfl, rfl⟩

theorem Strips.field {e e' : Entity} (h : Strips e e') {f : Field} (hf : f ∈ e.fields) :
    f ∈ e'.fields ∨ e.isAbstract = true ∧ f.isMref = true := by
  subst h
  split
  · next habstract =>
    cases hmref : f.isMref with
    | true => exact .inr ⟨habstract, rfl⟩
    | false => exact .inl (List.mem_filter.mpr ⟨hf, by simp [hmref]⟩)
  · exact .inl hf

end Entity

open Entity (IsChange Relabels Strips isChange_relabels)

/-! ### Labels -/

namespace Keys

/-- The entity has the labels it had, or those that it gets in the model. -/
def Labelled (m : Model) (e e' : Entity) : Prop :=
  Relabels e e' ∧ (e'.labels = e.labels ∨ ∃ x ∈ m.entities, x.name = e.name ∧
    ∃ labels, labelsFor m x = .ok (some labels) ∧ e'.labels = some labels)

theorem isChange_labelled (m : Model) : IsChange (Labelled m) where
  refl e := ⟨isChange_relabels.refl e, .inl rfl⟩
  trans := by
    rintro e₁ e₂ e₃ ⟨h₁, hlabels₁⟩ ⟨h₂, hlabels₂⟩
    refine ⟨isChange_relabels.trans h₁ h₂, ?_⟩
    rw [isChange_relabels.name h₁] at hlabels₂
    rcases hlabels₂ with hsame | hassigned
    · rwa [hsame]
    · exact .inr hassigned
  name h := isChange_relabels.name h.1

/-- Labels can be found for every entity, and are assigned to it. -/
theorem assignLabels_ok (h : assignLabels m = .ok m') :
    (∀ e ∈ m.entities, ∃ found, labelsFor m e = .ok found) ∧ Evolves (Labelled m) [] m m' := by
  obtain ⟨assigned, hassigned, h⟩ := Except.bind_ok h
  have hassigned := Except.mapM_ok hassigned
  have hstep : ∀ e found, (do pure (e.name, ← labelsFor m e) : Except KeyFault _) = .ok found →
      labelsFor m e = .ok found.2 ∧ found.1 = e.name := by
    intro e found h
    obtain ⟨labels, hlabels, h⟩ := Except.bind_ok h
    cases h
    exact ⟨hlabels, rfl⟩
  constructor
  · intro e he
    obtain ⟨found, _, hfound⟩ := exists_of_forall₂_left hassigned he
    exact ⟨found.2, (hstep e found hfound).1⟩
  · cases h
    refine List.foldlRecOn _ _ (Evolves.refl (isChange_labelled m) m) fun m' hm' found hfound => ?_
    obtain ⟨x, hx, h⟩ := exists_of_forall₂_right hassigned hfound
    obtain ⟨hlabels, hname⟩ := hstep x found h
    rcases found with ⟨name, _ | labels⟩
    · exact hm'
    · refine hm'.trans_nil (isChange_labelled m)
        (.changeEntity (isChange_labelled m) fun e he => ?_)
      have hsame : x.name = e.name := hname.symm.trans (Model.entity?_name he).symm
      exact ⟨rfl, .inr ⟨x, hx, hsame, labels, hlabels, rfl⟩⟩

theorem assignLabels_relabels (h : assignLabels m = .ok m') : Evolves Relabels [] m m' :=
  (assignLabels_ok h).2.mono fun _ _ h => h.1

end Keys

/-! ### Fields of interfaces -/

namespace Link

variable {dialect : Dialect}

/-- The entity with copies of fields behind its own. -/
def receive (copies : List Field) (e : Entity) : Entity := { e with fields := e.fields ++ copies }

/-- A field is passed over, if it is not many-to-many or one of its name is there, or it is
copied with a link of a free name. -/
theorem move_cases {moved moved' : Moved} (h : move dialect e moved f = .ok moved') :
    moved' = moved ∧ (f.isMref = true →
      (e.hasField f.name || moved.copies.any (·.name = f.name)) = true) ∨
    ∃ target link name, f.type = .mref target link ∧
      ¬(e.hasField f.name || moved.copies.any (·.name = f.name)) = true ∧
      Identifier.free? s!"{e.name}_{f.name}" dialect.limit? moved.taken = some name ∧
      moved' = {
        copies := moved.copies ++ [{ f with
          type := .mref target (movedLink e.name name target link dialect)
          origin := .interfaceMref }]
        taken := name :: moved.taken } := by
  unfold move at h
  split at h
  · next target link htype =>
    split at h
    · next hthere =>
      cases h
      exact .inl ⟨rfl, fun _ => hthere⟩
    · next hnew =>
      dsimp only at h
      split at h
      · cases h
      · next name hfree =>
        cases h
        exact .inr ⟨target, link, name, htype, hnew, hfree, rfl⟩
  · next hother =>
    cases h
    refine .inl ⟨rfl, fun hmref => ?_⟩
    rcases f with ⟨_, _, type⟩
    cases type <;> first | exact (hother _ _ rfl).elim | cases hmref

/-- An entity with a table receives copies; others stay as they are. -/
theorem moveTo_cases {taken taken' : List String} {name : String}
    (h : Ends (moveTo dialect taken name) m taken' m') :
    m' = m ∧ taken' = taken ∧ (∀ e, m.entity? name = some e → e.isAbstract = true) ∨
      ∃ e moved, m.entity? name = some e ∧ e.isAbstract = false ∧
        moveAll m dialect e taken = .ok moved ∧ taken' = moved.taken ∧
        m' = m.changeEntity name (receive moved.copies) := by
  have h := h.get_bind
  split at h
  · next hnone =>
    obtain ⟨rfl, rfl⟩ := h.pure
    exact .inl ⟨rfl, rfl, by simp [hnone]⟩
  · next e he =>
    split at h
    · next habstract =>
      obtain ⟨rfl, rfl⟩ := h.pure
      exact .inl ⟨rfl, rfl, by simp [he, habstract]⟩
    · next hconcrete =>
      obtain ⟨moved, hmoved, h⟩ := h.lift_bind
      obtain ⟨rfl, rfl⟩ := (Pass.change_bind h).pure
      exact .inr ⟨e, moved, he, by simpa using hconcrete, Except.mapError_ok hmoved, rfl, rfl⟩

theorem moveTo_gains {taken taken' : List String} {name : String}
    (h : Ends (moveTo dialect taken name) m taken' m') : Evolves Gains [] m m' := by
  rcases moveTo_cases h with ⟨rfl, -⟩ | ⟨e, moved, -, -, -, -, rfl⟩
  · exact .refl isChange_gains m'
  · exact .changeEntity isChange_gains fun e _ => ⟨[], moved.copies, [], by simp [receive]⟩

theorem moveEachTo_gains {names taken taken' : List String}
    (h : Ends (names.foldlM (moveTo dialect) taken) m taken' m') : Evolves Gains [] m m' :=
  .foldlM isChange_gains (fun _ _ _ _ _ _ => moveTo_gains) h

/-- Fields are added to entities, and taken from interfaces in the end. -/
theorem relocate_ok {u : Unit} (h : Ends (relocate dialect) m u m') :
    ∃ moved, Evolves Gains [] m moved ∧ m' = stripInterfaces moved := by
  obtain ⟨_, moved, hloop, h⟩ := h.get_bind.bind
  exact ⟨moved, moveEachTo_gains hloop, Pass.change_ends h⟩

/-- Stripping is no change of the kind that can be done in steps, so it is told of
each entity by itself. -/
theorem stripInterfaces_entity? {name : String} {e : Entity} (he : m.entity? name = some e) :
    ∃ e', (stripInterfaces m).entity? name = some e' ∧ Strips e e' := by
  have hstanding : ∀ e : Entity, (if e.isAbstract then
      { e with fields := e.fields.filter (!·.isMref) } else e).name = e.name := by
    intro e; split <;> rfl
  refine ⟨_, ?_, rfl⟩
  unfold stripInterfaces Model.entity?
  rw [List.find?_map, Function.comp_def]
  simp only [hstanding]
  unfold Model.entity? at he
  rw [he]
  rfl

theorem stripInterfaces_standing (m : Model) : Evolves SameStanding [] m (stripInterfaces m) :=
  .map rfl fun e _ => Strips.sameStanding (e := e) rfl

end Link

/-! ### One after the other -/

/-- Discriminators are added, if the mapping has them. -/
def Pass.Discriminates (options : Options) (m : Model) (warnings : List Warning) (m' : Model) :
    Prop :=
  options.mapping = .subclassPerTable ∧ Ends Hierarchy.addDiscriminators m warnings m' ∨
    options.mapping ≠ .subclassPerTable ∧ warnings = [] ∧ m' = m

theorem Pass.Discriminates.standing {options : Options} {warnings : List Warning}
    (hnodup : m.entityNames.Nodup) (h : Discriminates options m warnings m') :
    Evolves SameStanding [] m m' := by
  rcases h with ⟨-, h⟩ | ⟨-, -, rfl⟩
  · exact (Hierarchy.addDiscriminators_ok hnodup h).1
  · exact .refl isChange_sameStanding _

/-- The steps of completing keys, with the models between them and what is checked of these. -/
theorem Pass.completeKeys_checked {options : Options} {warnings : List Warning}
    (h : Ends (Pass.completeKeys options) m warnings m') : ∃ m₁ m₂ m₃,
      Ends Hierarchy.propagateKeys m () m₁ ∧ Discriminates options m₁ warnings m₂ ∧
      Hierarchy.checkOverrides m₂ = .ok () ∧ Keys.check m₂ = .ok () ∧
      Keys.assignLabels m₂ = .ok m₃ ∧ Ends (Link.relocate options.dialect) m₃ () m' := by
  unfold Pass.completeKeys at h
  obtain ⟨_, m₁, hkeys, h⟩ := h.bind
  obtain ⟨found, m₂, hdisc, hrest⟩ : ∃ found m₂, Discriminates options m₁ found m₂ ∧
      Ends (do
        Pass.check fun m => (Hierarchy.checkOverrides m).mapError .hierarchy
        Pass.check fun m => (Keys.check m).mapError .key
        Pass.step fun m => (Keys.assignLabels m).mapError .key
        Link.relocate options.dialect
        pure found) m₂ warnings m' := by
    dsimp only at h
    split at h
    · next hmapping =>
      obtain ⟨found, m₂, hdisc, h⟩ := h.bind
      exact ⟨found, m₂, .inl ⟨hmapping, hdisc⟩, h⟩
    · next hmapping => exact ⟨[], m₁, .inr ⟨hmapping, rfl, rfl⟩, h⟩
  obtain ⟨_, hoverrides, hrest⟩ := Pass.check_bind hrest
  obtain ⟨_, hcheck, hrest⟩ := Pass.check_bind hrest
  obtain ⟨m₃, hlabels, hrest⟩ := Pass.step_bind hrest
  obtain ⟨_, m₄, hrelocate, hrest⟩ := hrest.bind
  obtain ⟨rfl, rfl⟩ := hrest.pure
  exact ⟨m₁, m₂, m₃, hkeys, hdisc, Except.mapError_ok hoverrides, Except.mapError_ok hcheck,
    Except.mapError_ok hlabels, hrelocate⟩

theorem Pass.completeKeys_steps {options : Options} {warnings : List Warning}
    (h : Ends (Pass.completeKeys options) m warnings m') : ∃ m₁ m₂ m₃,
      Ends Hierarchy.propagateKeys m () m₁ ∧ Discriminates options m₁ warnings m₂ ∧
      Keys.check m₂ = .ok () ∧ Keys.assignLabels m₂ = .ok m₃ ∧
      Ends (Link.relocate options.dialect) m₃ () m' := by
  obtain ⟨m₁, m₂, m₃, hkeys, hdisc, -, hrest⟩ := completeKeys_checked h
  exact ⟨m₁, m₂, m₃, hkeys, hdisc, hrest⟩

end EntitySchema
