import EntitySchema.Proofs.Inheritance
import EntitySchema.Proofs.LinkEntities

/-! Adding discriminators. An entity of a hierarchy loses its first field of the
discriminator's name, and a root gets the discriminator before its other fields;
the warnings name each entity that lost a declared field, once. -/

namespace EntitySchema

open Model (Evolves)
open Entity (SameStanding OnlyAt isChange_sameStanding isChange_onlyAt)

variable {m m' : Model} {name : String} {warnings : List Warning}

/-- The entity extends others, or is a root that others extend. -/
def Model.InHierarchy (m : Model) (e : Entity) : Prop := m.isRoot e.name = true ∨ e.parents ≠ []

namespace Hierarchy

theorem lower_discriminatorName : Text.lower discriminatorName = discriminatorName := by
  decide +kernel

/-- The fields that stand before the others in a root. -/
def leading (m : Model) (name : String) : List Field :=
  if m.isRoot name then [rootDiscriminator m name] else []

/-- What an entity becomes, and the warnings about it. -/
inductive Discriminated (m : Model) (e : Entity) : Entity → List Warning → Prop
  | apart (h : ¬m.InHierarchy e) : Discriminated m e e []
  | within (h : m.InHierarchy e) : Discriminated m e
      { e with fields := leading m e.name ++ (e.removeField discriminatorName).fields }
      (replacements e)

/-- All warnings about an entity are the same. -/
theorem replacements_about (e : Entity) : ∀ w ∈ replacements e, w = replaced e.name := by
  intro w hw
  unfold replacements at hw
  split at hw
  · split at hw
    · exact List.mem_singleton.mp hw
    · cases hw
  · cases hw

/-- Different entities are warned about with different texts. -/
theorem replaced_injective {a b : String} (h : replaced a = replaced b) : a = b := by
  have h := congrArg (·.message.toList) h
  simp only [replaced, String.toList_append, List.append_cancel_right_eq,
    List.append_cancel_left_eq] at h
  exact String.toList_inj.mp h

/-- Changing an entity to another of the same standing. -/
theorem changeEntity_to {e e' : Entity} (he : m.entity? name = some e) (h : SameStanding e e') :
    Evolves SameStanding [] m (m.changeEntity name fun _ => e') ∧
      Evolves (OnlyAt name) [] m (m.changeEntity name fun _ => e') ∧
      (m.changeEntity name fun _ => e').entity? name = some e' := by
  refine ⟨.changeEntity_at isChange_sameStanding he h,
    .changeEntity_at (isChange_onlyAt name) he ⟨h.name, fun hne => ?_⟩,
    Model.entity?_changeEntity he h.name⟩
  exact absurd (Model.entity?_name he) hne

/-- Only one entity is changed, as far as discriminators go. -/
theorem discriminate_ok (h : Ends (discriminate name) m warnings m') :
    Evolves SameStanding [] m m' ∧ Evolves (OnlyAt name) [] m m' ∧
      (∀ w ∈ warnings, w = replaced name) ∧ ∀ e, m.entity? name = some e →
        ∃ e', m'.entity? name = some e' ∧ Discriminated m e e' warnings := by
  unfold discriminate at h
  have h := h.get_bind
  split at h
  · next hnone =>
    obtain ⟨rfl, rfl⟩ := h.pure
    refine ⟨.refl isChange_sameStanding _, .refl (isChange_onlyAt name) _, by simp, fun e he => ?_⟩
    rw [hnone] at he
    cases he
  · next e he =>
    obtain rfl := Model.entity?_name he
    have honce : ∀ {P : Entity → Prop}, P e → ∀ x, m.entity? e.name = some x → P x := by
      intro P hP x hx
      rw [he] at hx
      cases hx
      exact hP
    dsimp only at h
    split at h
    · next hin =>
      have hdisc := Discriminated.within (m := m) (e := e) (by simpa [Model.InHierarchy] using hin)
      have hstripped : SameStanding e (e.removeField discriminatorName) := ⟨rfl, rfl, rfl, rfl⟩
      have h := Pass.change_bind h
      obtain ⟨hstanding, honly, hfound⟩ := changeEntity_to he hstripped
      split at h
      · next hroot =>
        obtain ⟨complete, hinsert, h⟩ := h.lift_bind
        obtain ⟨_, rfl⟩ := Link.insertField_ok (Except.mapError_ok (g := Failure.duplicate) hinsert)
        obtain ⟨rfl, rfl⟩ := (Pass.change_bind h).pure
        have hlead : SameStanding (e.removeField discriminatorName)
            { e.removeField discriminatorName with
              fields := rootDiscriminator m e.name :: (e.removeField discriminatorName).fields } :=
          ⟨rfl, rfl, rfl, rfl⟩
        obtain ⟨hstanding', honly', hfound'⟩ := changeEntity_to hfound hlead
        rw [leading, if_pos hroot] at hdisc
        exact ⟨hstanding.trans isChange_sameStanding hstanding',
          honly.trans (isChange_onlyAt e.name) honly', replacements_about e,
          honce ⟨_, hfound', hdisc⟩⟩
      · next hroot =>
        obtain ⟨rfl, rfl⟩ := h.pure
        rw [leading, if_neg hroot] at hdisc
        exact ⟨hstanding, honly, replacements_about e, honce ⟨_, hfound, hdisc⟩⟩
    · next hin =>
      obtain ⟨rfl, rfl⟩ := h.pure
      have hapart := Discriminated.apart (m := m') (e := e) (by simpa [Model.InHierarchy] using hin)
      exact ⟨.refl isChange_sameStanding _, .refl (isChange_onlyAt e.name) _, by simp,
        honce ⟨e, he, hapart⟩⟩

/-! ### All entities -/

/-- What an entity becomes depends on how the entities stand to each other only. -/
theorem Discriminated.standing (h : Evolves SameStanding [] m m') {e e' : Entity}
    (hd : Discriminated m' e e' warnings) : Discriminated m e e' warnings := by
  have hin : m'.InHierarchy e ↔ m.InHierarchy e := by
    unfold Model.InHierarchy
    rw [Model.isRoot_standing h]
  have hleading : leading m' e.name = leading m e.name := by
    unfold leading rootDiscriminator members
    rw [Model.isRoot_standing h, Model.descendants_names_standing h]
  cases hd with
  | apart hout => exact .apart fun h => hout (hin.mpr h)
  | within hwithin => rw [hleading]; exact .within (hin.mp hwithin)

/-- The warnings about an entity. -/
def about (name : String) (warnings : List Warning) : List Warning :=
  warnings.filter (· = replaced name)

theorem count_replaced (warnings : List Warning) :
    warnings.count (replaced name) = (about name warnings).length := by
  unfold about List.count
  rw [List.countP_eq_length_filter]
  rfl

theorem about_eq_nil {other : String} (h : ∀ w ∈ warnings, w = replaced name)
    (hne : name ≠ other) : about other warnings = [] := by
  refine List.filter_eq_nil_iff.mpr fun w hw => ?_
  rw [h w hw]
  simpa using fun heq => hne (replaced_injective heq)

theorem about_eq_self (h : ∀ w ∈ warnings, w = replaced name) : about name warnings = warnings :=
  List.filter_eq_self.mpr fun w hw => by simpa using h w hw

/-- Each entity whose turn comes is changed once, and warned about once. -/
theorem discriminateEach_ok : ∀ {names : List String} {m : Model} {found : List (List Warning)},
    names.Nodup → Ends (names.mapM discriminate) m found m' →
    Evolves SameStanding [] m m' ∧ ∀ name e, m.entity? name = some e →
      ∃ e', m'.entity? name = some e' ∧
        (name ∉ names → e' = e ∧ about name found.flatten = []) ∧
        (name ∈ names → Discriminated m e e' (about name found.flatten))
  | [], m, found, _, h => by
    cases h
    exact ⟨.refl isChange_sameStanding _, fun name e he => ⟨e, he, by simp [about], by simp⟩⟩
  | first :: rest, m, found, hnodup, h => by
    rw [List.mapM_cons] at h
    obtain ⟨warnings, m₁, hstep, h⟩ := h.bind
    obtain ⟨others, m₂, hrest, h⟩ := h.bind
    obtain ⟨rfl, rfl⟩ := h.pure
    obtain ⟨hfirst, hnodup⟩ := List.nodup_cons.mp hnodup
    obtain ⟨hstanding, honly, habout, hdisc⟩ := discriminate_ok hstep
    obtain ⟨hstanding', hall⟩ := discriminateEach_ok hnodup hrest
    refine ⟨hstanding.trans isChange_sameStanding hstanding', fun name e he => ?_⟩
    rw [List.flatten_cons, about, List.filter_append, ← about, ← about]
    -- an entity is changed in its own turn only, so the turns before and after are frames
    by_cases hname : name = first
    · subst hname
      obtain ⟨e₁, he₁, hdisc⟩ := hdisc e he
      obtain ⟨e', he', hlater, -⟩ := hall name e₁ he₁
      obtain ⟨rfl, hnone⟩ := hlater hfirst
      rw [hnone, List.append_nil, about_eq_self habout]
      exact ⟨e', he', fun h => absurd List.mem_cons_self h, fun _ => hdisc⟩
    · obtain ⟨e₁, he₁, -, hsame⟩ := honly.entity? (isChange_onlyAt first) he
      obtain rfl := hsame fun h => hname (Model.entity?_name he ▸ h)
      obtain ⟨e', he', hnot, hin⟩ := hall name e₁ he₁
      rw [about_eq_nil habout (Ne.symm hname), List.nil_append]
      refine ⟨e', he', fun h => hnot fun h' => h (List.mem_cons_of_mem _ h'), fun h => ?_⟩
      exact (hin ((List.mem_cons.mp h).resolve_left hname)).standing hstanding

/-- Every entity of a hierarchy gives way to discriminators, with its own warnings. -/
theorem addDiscriminators_ok (hnodup : m.entityNames.Nodup)
    (h : Ends addDiscriminators m warnings m') : Evolves SameStanding [] m m' ∧
      ∀ name e, m.entity? name = some e →
        ∃ e', m'.entity? name = some e' ∧ Discriminated m e e' (about name warnings) := by
  obtain ⟨found, m₁, hloop, h⟩ := h.get_bind.bind
  obtain ⟨rfl, rfl⟩ := h.pure
  obtain ⟨hstanding, hall⟩ := discriminateEach_ok hnodup hloop
  refine ⟨hstanding, fun name e he => ?_⟩
  obtain ⟨e', he', -, hin⟩ := hall name e he
  exact ⟨e', he', hin (Model.mem_entityNames.mpr ⟨e, he⟩)⟩

/-- Every entity is what one of the entities before has become. -/
theorem addDiscriminators_mem (hnodup : m.entityNames.Nodup)
    (h : Ends addDiscriminators m warnings m') {e' : Entity} (he' : e' ∈ m'.entities) :
    ∃ e ∈ m.entities, e'.name = e.name ∧ Discriminated m e e' (about e.name warnings) := by
  obtain ⟨hstanding, hall⟩ := addDiscriminators_ok hnodup h
  obtain ⟨e, he, hsame⟩ := (hstanding.mem he').resolve_right (by simp)
  obtain ⟨e'', he'', hdisc⟩ := hall e.name e (Model.entity?_of_mem hnodup he)
  have hnodup' := hstanding.nodup isChange_sameStanding hnodup
  rw [← hsame.name, Model.entity?_of_mem hnodup' he'] at he''
  cases he''
  exact ⟨e, he, hsame.name, hdisc⟩

end Hierarchy

end EntitySchema
