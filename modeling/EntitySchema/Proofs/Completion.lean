import EntitySchema.Proofs.KeyPasses
import EntitySchema.Proofs.LowerCase
import EntitySchema.Proofs.Resolution
import EntitySchema.Proofs.Tables

/-! The passes in their order. A run that completes a model is taken apart into the
runs of its passes, with the models between them; the entities of the first model
are still the first ones of the last. -/

namespace EntitySchema

open Model (Evolves)
open Entity (SameStanding Grows isChange_sameOutline isChange_sameStanding isChange_grows)

variable {m m' : Model} {options : Options} {dialect : Dialect} {warnings : List Warning}

namespace Pass

theorem completeNames_steps (h : Ends (completeNames dialect) m () m') :
    Ends (Link.assignNames dialect) m () m' := (check_bind h).choose_spec.2

theorem completeNames_checked (h : Ends (completeNames dialect) m () m') :
    Identifier.checkModel dialect m = .ok () :=
  Except.mapError_ok (g := Failure.identifier) (check_bind h).choose_spec.1

theorem completeReferences_steps (h : Ends completeReferences m () m') : ∃ m₁ m₂ m₃,
    Ends Reference.resolveAll m () m₁ ∧ Ends FieldCase.correct m₁ () m₂ ∧
      Ends Reference.resolveAll m₂ () m₃ ∧ m'.entities = m₃.entities := by
  obtain ⟨_, m₁, hfirst, h⟩ := h.bind
  obtain ⟨_, m₂, hcase, h⟩ := h.bind
  obtain ⟨_, m₃, hsecond, h⟩ := h.bind
  refine ⟨m₁, m₂, m₃, hfirst, hcase, hsecond, ?_⟩
  obtain ⟨views, _, h⟩ := Except.bind_ok (Except.mapError_ok (step_ends h))
  cases h
  rfl

theorem completeLinks_steps (h : Ends (completeLinks dialect) m () m') : ∃ made m₁,
    Ends (Link.synthesize dialect) m made m₁ ∧ Ends (Reference.resolveEntities made) m₁ () m' := by
  obtain ⟨made, m₁, hmade, h⟩ := h.bind
  exact ⟨made, m₁, hmade, h⟩

/-- The parts of a completion, each run on what the one before it left. -/
theorem complete_steps (h : Ends (complete options) m warnings m') : ∃ m₁ m₂ m₃ m₄,
    Ends (completeNames options.dialect) m () m₁ ∧ Ends (completeKeys options) m₁ warnings m₂ ∧
      Ends completeReferences m₂ () m₃ ∧ Ends (completeLinks options.dialect) m₃ () m₄ ∧
      Ends (completeTables options) m₄ () m' := by
  obtain ⟨_, m₁, hnames, h⟩ := h.bind
  obtain ⟨found, m₂, hkeys, h⟩ := h.bind
  obtain ⟨_, m₃, hreferences, h⟩ := h.bind
  obtain ⟨_, m₄, hlinks, h⟩ := h.bind
  obtain ⟨_, m₅, htables, h⟩ := h.bind
  obtain ⟨rfl, rfl⟩ := h.pure
  exact ⟨m₁, m₂, m₃, m₄, hnames, hkeys, hreferences, hlinks, htables⟩

/-! ### What stays of every entity -/

theorem completeNames_standing (h : Ends (completeNames dialect) m () m') :
    Evolves SameStanding [] m m' :=
  (Link.assignNames_outline (completeNames_steps h)).mono fun _ _ h => h.sameStanding

theorem completeKeys_standing (hnodup : m.entityNames.Nodup)
    (h : Ends (completeKeys options) m warnings m') : Evolves SameStanding [] m m' := by
  obtain ⟨m₁, m₂, m₃, hkeys, hdisc, -, hlabels, hrelocate⟩ := completeKeys_steps h
  have hkeys : Evolves SameStanding [] m m₁ :=
    (Hierarchy.propagateKeys_ok hkeys).2.mono fun _ _ h => h.sameStanding
  have hdisc := hdisc.standing (hkeys.nodup isChange_sameStanding hnodup)
  have hlabels : Evolves SameStanding [] m₂ m₃ :=
    (Keys.assignLabels_relabels hlabels).mono fun _ _ h => h.sameStanding
  obtain ⟨moved, hmoved, rfl⟩ := Link.relocate_ok hrelocate
  have hmoved : Evolves SameStanding [] m₃ moved := hmoved.mono fun _ _ h => h.sameStanding
  exact hkeys.trans_nil isChange_sameStanding (hdisc.trans_nil isChange_sameStanding
    (hlabels.trans_nil isChange_sameStanding (hmoved.trans_nil isChange_sameStanding
      (Link.stripInterfaces_standing moved))))

theorem completeReferences_standing (h : Ends completeReferences m () m') :
    Evolves SameStanding [] m m' := by
  obtain ⟨m₁, m₂, m₃, hfirst, hcase, hsecond, heq⟩ := completeReferences_steps h
  have hfirst : Evolves SameStanding [] m m₁ :=
    (Reference.resolveAll_outline hfirst).mono fun _ _ h => h.sameStanding
  have hsecond : Evolves SameStanding [] m₂ m₃ :=
    (Reference.resolveAll_outline hsecond).mono fun _ _ h => h.sameStanding
  exact hfirst.trans_nil isChange_sameStanding
    ((FieldCase.correct_standing hcase).trans_nil isChange_sameStanding
      (hsecond.trans_nil isChange_sameStanding (.of_eq isChange_sameStanding heq)))

/-- Up to references, all passes together. -/
theorem complete_standing {m₁ m₂ : Model} (hnodup : m.entityNames.Nodup)
    (hnames : Ends (completeNames dialect) m () m₁)
    (hkeys : Ends (completeKeys options) m₁ warnings m₂)
    (hreferences : Ends completeReferences m₂ () m') : Evolves SameStanding [] m m' := by
  have hstanding := completeNames_standing hnames
  have hnodup := hstanding.nodup isChange_sameStanding hnodup
  exact hstanding.trans_nil isChange_sameStanding
    ((completeKeys_standing hnodup hkeys).trans_nil isChange_sameStanding
      (completeReferences_standing hreferences))

/-- The second resolution is the last word on the references that were declared. -/
theorem completeReferences_holds {P : Model → Field → Prop} (hP : Reference.Settles P)
    (hnodup : m.entityNames.Nodup) (h : Ends completeReferences m () m') :
    ∀ e ∈ m'.entities, ∀ f ∈ e.fields, P m' f := by
  obtain ⟨m₁, m₂, m₃, hfirst, hcase, hsecond, heq⟩ := completeReferences_steps h
  have hnodup₁ := (Reference.resolveAll_outline hfirst).nodup isChange_sameOutline hnodup
  have hnodup₂ := (FieldCase.correct_standing hcase).nodup isChange_sameStanding hnodup₁
  have hall := Reference.resolveAll_holds hP hnodup₂ hsecond
  intro e he f hf
  exact hP.kept (.of_eq isChange_sameOutline heq) (hall e (heq ▸ he) f hf)

theorem completeLinks_grows (h : Ends (completeLinks dialect) m () m') :
    ∃ added, Evolves Grows added m m' := by
  obtain ⟨made, m₁, hmade, hresolve⟩ := completeLinks_steps h
  have hmade : Evolves Grows made m m₁ :=
    (Link.synthesize_evolves hmade).mono fun _ _ h => h.sameOutline.grows
  have hresolve : Evolves Grows [] m₁ m' :=
    (Reference.resolveEntities_outline hresolve).mono fun _ _ h => h.grows
  exact ⟨made, hmade.trans_nil isChange_grows hresolve⟩

theorem completeTables_grows (hnodup : m.entityNames.Nodup)
    (h : Ends (completeTables options) m () m') : ∃ added, Evolves Grows added m m' := by
  obtain ⟨added, hadded⟩ := (completeTables_extension hnodup h).grows
  have hlabels : Evolves Grows [] m (Reference.propagateLabels m) :=
    (Reference.propagateLabels_bearing m).mono fun _ _ h => h.sameOutline.grows
  exact ⟨added, hlabels.trans isChange_grows hadded⟩

end Pass

end EntitySchema
