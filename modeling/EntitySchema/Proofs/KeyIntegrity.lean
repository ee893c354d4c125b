import EntitySchema.Proofs.Documents

/-! Keys of a completed model. Keys may name inherited fields until the copies of the
last pass are made; sound entities stay sound in between, so that in the end every
key of every entity, link entities and identity roots included, is over own fields. -/

namespace EntitySchema

open Entity (Sound OwnsKeys isChange_sameOutline isChange_sameStanding isChange_grows)

variable {m m' : Model} {options : Options} {warnings : List Warning}

/-- Sound entities of different names. -/
structure Model.Sound (m : Model) : Prop where
  names : m.entityNames.Nodup
  entities : m.All Entity.Sound

theorem Model.AsRead.sound (h : m.AsRead) : m.Sound :=
  ⟨h.names, h.entities.imp fun _ h => h.toSound⟩

theorem Pass.complete_sound (hm : m.Sound) (h : Ends (complete options) m warnings m') :
    m'.Sound ∧ m'.All OwnsKeys := by
  obtain ⟨m₁, m₂, m₃, m₄, hnames, hkeys, hreferences, hlinks, htables⟩ := complete_steps h
  have hnodup₁ := (completeNames_standing hnames).nodup isChange_sameStanding hm.names
  have hnodup₂ := (completeKeys_standing hnodup₁ hkeys).nodup isChange_sameStanding hnodup₁
  have hnodup₃ := (completeReferences_standing hreferences).nodup isChange_sameStanding hnodup₂
  obtain ⟨_, hgrows₄⟩ := completeLinks_grows hlinks
  have hnodup₄ := hgrows₄.nodup isChange_grows hnodup₃
  obtain ⟨_, hgrows'⟩ := completeTables_grows hnodup₄ htables
  have hm₃ := completeReferences_sound hm.names hm.entities hnames hkeys hreferences
  obtain ⟨hsound, howns⟩ := completeTables_sound hnodup₄ (completeLinks_sound hm₃ hlinks) htables
  exact ⟨⟨hgrows'.nodup isChange_grows hnodup₄, hsound⟩, howns⟩

/-- Completing a sound model, as every model is that is read, ends in a sound model whose
keys are over own fields. -/
theorem completed_keys_owned :
    (∀ options m warnings m', m.Sound → Ends (Pass.complete options) m warnings m' →
      m'.Sound ∧ m'.All OwnsKeys) ∧
    (∀ options library schemas screens c,
      Compilation.compile options library schemas screens = .ok c →
      c.model.Sound ∧ c.model.All OwnsKeys) := by
  constructor
  · intro options m warnings m' hm h
    exact Pass.complete_sound hm h
  · intro options library schemas screens c h
    obtain ⟨m, m', warnings, hread, hcomplete, heq, -⟩ := Compilation.compile_asRead h
    obtain ⟨hsound, howns⟩ :=
      Pass.complete_sound ⟨hread.names, hread.entities.imp fun _ h => h.toSound⟩ hcomplete
    refine ⟨⟨?_, hsound.entities.of_eq heq⟩, howns.of_eq heq⟩
    rw [Model.entityNames, heq]
    exact hsound.names

/-- Captains are players, and no two of them have the same shirt, which players have;
matches are between players. -/
def teams : Model :=
  let identity : Field := { Field.named "id" .int with auto := true }
  { Model.empty with entities := [
      { Entity.named "Player" with
        fields := [identity, Field.named "shirt" .int]
        keys := [{ fields := ["id"] }] },
      { Entity.named "Captain" with parents := ["Player"], keys := [{ fields := ["shirt"] }] },
      { Entity.named "Match" with
        fields := [identity, Field.named "players" (.mref { entity := "Player" } {})]
        keys := [{ fields := ["id"] }] }] }

theorem teams_keys_owned :
    (teams.Sound ∧ ∃ m', Ends (Pass.complete { mapping := .classPerTable }) teams [] m' ∧
      m'.Sound ∧ m'.All OwnsKeys) ∧
    ∃ c, Compilation.compile {} Screens.noLibrary
      ["<m><entity name='A'><field name='id' type='autoid'/></entity></m>"] none = .ok c ∧
      c.model.Sound ∧ c.model.All OwnsKeys := by
  constructor
  · have hsound : teams.Sound := ⟨by decide +kernel, by unfold Model.All; decide +kernel⟩
    have hrun : Ends (Pass.complete { mapping := .classPerTable }) teams []
        ((Pass.complete { mapping := .classPerTable }).run teams).2 :=
      Prod.ext (by decide +kernel) rfl
    exact ⟨hsound, _, hrun, completed_keys_owned.1 _ _ _ _ hsound hrun⟩
  · obtain ⟨c, hc⟩ := Except.exists_ok (x := Compilation.compile {} Screens.noLibrary
      ["<m><entity name='A'><field name='id' type='autoid'/></entity></m>"] none)
      (by decide +kernel)
    exact ⟨c, hc, completed_keys_owned.2 _ _ _ _ _ hc⟩

end EntitySchema
