import EntitySchema.Proofs.SteadyLabels

/-! The order of resolution. References are resolved entity by entity, and a label may be
looked up among the labels of key fields as they are by then; so it can depend on the
order of entities. Nothing else does: where a reference points, and what it shows for
steady labels, is the same in every order, and only a label that is not steady can be
found in one order and missed in another. -/

namespace EntitySchema

open Entity (SameOutline)
open Model (Corresponds)

variable {m m' m₁ m₂ s s' s₁ s₂ : Model} {e e' owner : Entity} {f f' : Field}
  {t t₁ t₂ : Target} {name label context : String} {fault : ReferenceFault}

/-- The fault is that a label of this reference leads nowhere. -/
def ReferenceFault.Rejects (label owner : String) : ReferenceFault → Prop
  | .unknownPath l o | .nothingToShow l o _ | .unknownLabel l o _ _ => l = label ∧ o = owner
  | _ => False

/-- The attempts succeed for all items, or stop with the failure of one of them. -/
theorem Except.mapM_cases {ε α β : Type} (f : α → Except ε β) : ∀ xs : List α,
    (∃ ys, xs.mapM f = .ok ys) ∨ ∃ x ∈ xs, ∃ failure, f x = .error failure ∧
      xs.mapM f = .error failure
  | [] => .inl ⟨[], rfl⟩
  | x :: xs => by
    rw [List.mapM_cons]
    cases hx : f x with
    | error failure => exact .inr ⟨x, List.mem_cons_self, failure, hx, rfl⟩
    | ok y =>
      rcases mapM_cases f xs with ⟨ys, hys⟩ | ⟨z, hz, failure, hfailure, hstop⟩
      · exact .inl ⟨y :: ys, by rw [hys]; rfl⟩
      · exact .inr ⟨z, List.mem_cons_of_mem _ hz, failure, hfailure, by rw [hstop]; rfl⟩

theorem Except.mapM_self {ε α : Type} {f : α → Except ε α} :
    ∀ {xs : List α}, (∀ x ∈ xs, f x = .ok x) → xs.mapM f = .ok xs
  | [], _ => rfl
  | x :: xs, h => by
    obtain ⟨hx, hxs⟩ := List.forall_mem_cons.mp h
    rw [List.mapM_cons, hx, mapM_self hxs]
    rfl

section Agree

variable {ε α β : Type} {f g : α → Except ε β} {xs : List α} {ys zs : List β}
  (hf : xs.mapM f = .ok ys) (hg : xs.mapM g = .ok zs)

include hf hg

/-- Where two functions agree, so do the lists of what they give. -/
theorem Except.mapM_agree {i : Nat} {x : α} (hi : xs[i]? = some x) (hx : g x = f x) :
    zs[i]? = ys[i]? := by
  obtain ⟨y, hy, hfx⟩ := getElem?_of_forall₂ (mapM_ok hf) hi
  obtain ⟨z, hz, hgx⟩ := getElem?_of_forall₂ (mapM_ok hg) hi
  rw [hx, hfx] at hgx
  cases hgx
  rw [hy, hz]

theorem Except.mapM_eq (h : ∀ x ∈ xs, g x = f x) : zs = ys := by
  refine List.ext_getElem? fun i => ?_
  cases hi : xs[i]? with
  | some x => exact mapM_agree hf hg hi (h x (List.mem_of_getElem? hi))
  | none =>
    have hlong : xs.length ≤ i := List.getElem?_eq_none_iff.mp hi
    rw [List.getElem?_eq_none ((mapM_ok hg).length_eq ▸ hlong),
      List.getElem?_eq_none ((mapM_ok hf).length_eq ▸ hlong)]

end Agree

theorem Pass.step_run (f : Model → Except Failure Model) (m : Model) :
    (Pass.step f).run m = match f m with
      | .ok m' => (.ok (), m')
      | .error failure => (.error failure, m) := by
  change ((liftM (f m) : Pass Model) >>= fun changed => set changed).run m = _
  cases f m <;> rfl

namespace Reference

/-! ### Where a reference points -/

/-- What a reference points at, before its labels are looked up. -/
structure Aim where
  declared : Target
  entity : Entity
  key : Field

/-- Where a reference points. -/
def aim (m : Model) (owner : Entity) (f : Field) : Except ReferenceFault Aim := do
  let context := s!"{owner.name}.{f.name}"
  let some declared := f.target? | throw (.notReference context)
  if owner.isAbstract && f.isMref then throw (.interfaceMref owner.name f.name)
  let entity ← targetEntity m context declared.entity
  if entity.isAbstract && f.origin ≠ .inheritedKey then
    throw (.abstractTarget context entity.name)
  let name ← targetFieldName m context entity declared.field
  let key ← targetField m context entity name
  pure { declared, entity, key }

/-- The labels that are shown for what a reference points at. -/
def shown (m : Model) (context : String) (a : Aim) : Except ReferenceFault (List String) :=
  if a.declared.labels.isEmpty then pure [a.key.name]
  else a.declared.labels.mapM (resolveLabel m context a.entity a.key.name)

/-- A reference is resolved when it is known where it points and what is shown for that. -/
theorem resolve_eq (m : Model) (owner : Entity) (f : Field) : resolve m owner f = (do
    let a ← aim m owner f
    let labels ← shown m s!"{owner.name}.{f.name}" a
    pure { entity := a.entity.name, field := some a.key.name, labels,
           cascade := a.declared.cascade }) := by
  unfold resolve aim
  cases f.target? with
  | none => rfl
  | some declared =>
    dsimp only
    split
    · rfl
    cases targetEntity m s!"{owner.name}.{f.name}" declared.entity with
    | error fault => rfl
    | ok entity =>
      change (if _ then _ else _) = Except.bind (if _ then _ else _) _
      split
      · rfl
      cases targetFieldName m s!"{owner.name}.{f.name}" entity declared.field with
      | error fault => rfl
      | ok name =>
        change (targetField m s!"{owner.name}.{f.name}" entity name >>= _) =
          Except.bind (targetField m s!"{owner.name}.{f.name}" entity name >>= _) _
        cases targetField m s!"{owner.name}.{f.name}" entity name with
        | error fault => rfl
        | ok key =>
          change (if _ then _ else _) = Except.bind (if _ then _ else _) _
          split <;> rfl

theorem aim_ok_iff {a : Aim} : aim m owner f = .ok a ↔ f.target? = some a.declared ∧
    ¬(owner.isAbstract && f.isMref) = true ∧ m.entity? a.declared.entity = some a.entity ∧
    ¬(a.entity.isAbstract && f.origin ≠ .inheritedKey) = true ∧
    ∃ name, targetFieldName m s!"{owner.name}.{f.name}" a.entity a.declared.field = .ok name ∧
      targetField m s!"{owner.name}.{f.name}" a.entity name = .ok a.key := by
  unfold aim
  constructor
  · intro h
    cases ht : f.target? with
    | none => rw [ht] at h; cases h
    | some declared =>
      rw [ht] at h
      obtain ⟨howner, h⟩ := Except.guard_ok h
      obtain ⟨entity, hentity, h⟩ := Except.bind_ok h
      obtain ⟨hconcrete, h⟩ := Except.guard_ok h
      obtain ⟨name, hname, h⟩ := Except.bind_ok h
      obtain ⟨key, hkey, h⟩ := Except.bind_ok h
      cases h
      exact ⟨rfl, howner, targetEntity_ok hentity, hconcrete, name, hname, hkey⟩
  · rintro ⟨ht, howner, hentity, hconcrete, name, hname, hkey⟩
    have hfound : targetEntity m s!"{owner.name}.{f.name}" a.declared.entity = .ok a.entity := by
      rw [targetEntity, hentity]
    simp only [ht, if_neg howner, hfound]
    show (if _ then _ else _) = _
    rw [if_neg hconcrete, hname]
    show (targetField m _ a.entity name >>= _) = _
    rw [hkey]
    rfl

/-- A field that is visible as it is written is found. -/
theorem targetField_exact {key : Field} (hsees : m.Sees e.name name)
    (h : targetField m context e name = .ok key) : key.name = name := by
  obtain ⟨g, hg, hname⟩ := visibleFieldIgnoringCase?_of_sees hsees
  unfold targetField at h
  dsimp only at h
  rw [hg] at h
  dsimp only at h
  split at h
  · cases h
  split at h
  · cases h
  cases h
  exact hname

/-! ### Where it points at every stage -/

theorem isText_of_outline (h : f'.outline = f.outline) : f'.type = .text ↔ f.type = .text := by
  have htext : ∀ t : FieldType, t = .text ↔ t.outline = .text := fun t => by
    cases t <;> simp [FieldType.outline]
  rw [htext, htext f.type]
  exact Eq.congr_left (congrArg Field.type h :)

section Outlines

variable (h : Corresponds SameOutline s s')

include h in
theorem targetFieldName_stage (hname : e'.name = e.name) (declared : Option String) :
    targetFieldName s' context e' declared = targetFieldName s context e declared := by
  unfold targetFieldName Model.primaryKey?
  rw [hname, h.allKeys (fun _ _ h => h.sameStanding) fun _ _ h => h.keys]

include h in
theorem targetField_stage (hname : e'.name = e.name) {key : Field}
    (hkey : targetField s context e name = .ok key) :
    ∃ key', targetField s' context e' name = .ok key' ∧ key'.name = key.name := by
  have hfield := h.visibleFieldIgnoringCase? (fun _ _ h => h.sameStanding)
    (fun _ _ => Field.name_of_outline) (fun _ _ h => h.forall₂) e.name name
  unfold targetField at hkey ⊢
  dsimp only at hkey ⊢
  rw [hname, h.allKeys (fun _ _ h => h.sameStanding) fun _ _ h => h.keys]
  generalize s.visibleFieldIgnoringCase? e.name name = found at hfield hkey
  generalize s'.visibleFieldIgnoringCase? e.name name = found' at hfield ⊢
  cases hfield with
  | none => cases hkey
  | @some g g' hout =>
    have hg := Field.name_of_outline hout
    dsimp only at hkey ⊢
    rw [hg]
    split at hkey
    · cases hkey
    split at hkey
    · cases hkey
    next hkeyed htext =>
    cases hkey
    refine ⟨g', ?_, hg⟩
    rw [if_neg hkeyed, if_neg (mt (isText_of_outline hout).mp htext)]

include h in
/-- Where a reference points does not depend on what was resolved before. -/
theorem aim_stage {a : Aim} (ha : aim s owner f = .ok a) :
    ∃ a', aim s' owner f = .ok a' ∧ a'.declared = a.declared ∧
      a'.entity.name = a.entity.name ∧ a'.key.name = a.key.name := by
  obtain ⟨ht, howner, hentity, hconcrete, name, hname, hkey⟩ := aim_ok_iff.mp ha
  obtain ⟨e', he', hsame⟩ := h.forward hentity
  have hentityName := hsame.sameStanding.name
  obtain ⟨key', hkey', hkeyName⟩ := targetField_stage h hentityName hkey
  refine ⟨⟨a.declared, e', key'⟩, aim_ok_iff.mpr ⟨ht, howner, he', ?_, name, ?_, hkey'⟩, rfl,
    hentityName, hkeyName⟩
  · rwa [hsame.sameStanding.isAbstract]
  · rwa [targetFieldName_stage h hentityName]

end Outlines

/-! ### What is shown at two stages -/

theorem resolveLabel_error {target : Entity} {key : String}
    (h : resolveLabel m context target key label = .error fault) :
    fault.Rejects label context := by
  unfold resolveLabel at h
  split at h
  · split at h
    · cases h
    · cases h; exact ⟨rfl, rfl⟩
  split at h
  · cases h
  split at h
  · cases h
  dsimp only at h
  split at h
  · cases h
  split at h
  · cases h; exact ⟨rfl, rfl⟩
  split at h
  · cases h
  · cases h; exact ⟨rfl, rfl⟩

/-- Two outcomes of resolving a reference differ at most in labels that are not steady. -/
structure Alike (m : Model) (declared t₁ t₂ : Target) : Prop where
  entity : t₂.entity = t₁.entity
  field : t₂.field = t₁.field
  cascade : t₂.cascade = t₁.cascade
  length : t₂.labels.length = t₁.labels.length
  label : ∀ (i : Nat) (label : String), declared.labels[i]? = some label →
    Steady m declared.entity label → t₂.labels[i]? = t₁.labels[i]?
  same : (∀ label ∈ declared.labels, Steady m declared.entity label) → t₂ = t₁

/-- The fault is that a label which is not steady leads nowhere. -/
def Wavers (m : Model) (owner : Entity) (f : Field) (fault : ReferenceFault) : Prop :=
  ∃ t ∈ f.target?, ∃ label ∈ t.labels, ¬Steady m t.entity label ∧
    fault.Rejects label s!"{owner.name}.{f.name}"

theorem Stage.sameOutline (h₁ : Stage m s₁) (h₂ : Stage m s₂) : Corresponds SameOutline s₁ s₂ :=
  (h₁.between h₂).mono fun _ _ ⟨_, hkeeps₁, hkeeps₂⟩ =>
    Entity.isChange_sameOutline.trans hkeeps₁.sameOutline.symm hkeeps₂.sameOutline

/-- Steady labels are found alike at two stages. -/
theorem resolveLabel_stages (h₁ : Stage m s₁) (h₂ : Stage m s₂) {e₁ e₂ : Entity} {key : String}
    (hname : e₂.name = e₁.name) (hsteady : Steady m e₁.name label) :
    resolveLabel s₂ context e₂ key label = resolveLabel s₁ context e₁ key label :=
  (h₂.resolveLabel hname hsteady).trans (h₁.resolveLabel rfl hsteady).symm

/-- What is resolved at one stage is resolved at another, alike, unless a label that is not
steady fails there. -/
theorem resolve_stages (h₁ : Stage m s₁) (h₂ : Stage m s₂) (ht : f.target? = some t)
    (h : resolve s₁ owner f = .ok t₁) :
    (∃ t₂, resolve s₂ owner f = .ok t₂ ∧ Alike m t t₁ t₂) ∨
      ∃ fault, resolve s₂ owner f = .error fault ∧ Wavers m owner f fault := by
  rw [resolve_eq] at h
  obtain ⟨a₁, ha₁, h⟩ := Except.bind_ok h
  obtain ⟨labels₁, hlabels₁, h⟩ := Except.bind_ok h
  cases h
  obtain ⟨a₂, ha₂, hdeclared, hentity, hkey⟩ := aim_stage (h₁.sameOutline h₂) ha₁
  obtain ⟨htarget, -, he₁, -⟩ := aim_ok_iff.mp ha₁
  obtain rfl : t = a₁.declared := Option.some.inj (ht.symm.trans htarget)
  have hname : a₁.entity.name = a₁.declared.entity := Model.entity?_name he₁
  rw [resolve_eq, ha₂]
  dsimp only [bind, Except.bind]
  unfold shown at hlabels₁ ⊢
  rw [hdeclared, hkey]
  split at hlabels₁
  · next hnone =>
    -- the field referred to is shown
    cases hlabels₁
    rw [if_pos hnone]
    refine .inl ⟨_, rfl, ?_⟩
    simp only [hentity]
    exact ⟨rfl, rfl, rfl, rfl, fun _ _ _ _ => rfl, fun _ => rfl⟩
  · next hsome =>
    rw [if_neg hsome]
    rcases Except.mapM_cases (resolveLabel s₂ s!"{owner.name}.{f.name}" a₂.entity a₁.key.name)
      a₁.declared.labels with ⟨labels₂, hlabels₂⟩ | ⟨label, hlabel, fault, hfault, hstop⟩
    · have hagree : ∀ label, Steady m a₁.declared.entity label →
          resolveLabel s₂ s!"{owner.name}.{f.name}" a₂.entity a₁.key.name label =
            resolveLabel s₁ s!"{owner.name}.{f.name}" a₁.entity a₁.key.name label :=
        fun label hsteady => resolveLabel_stages h₁ h₂ hentity (hname ▸ hsteady)
      refine .inl ⟨_, by rw [hlabels₂]; rfl, ?_⟩
      simp only [hentity]
      have hlength := (Except.mapM_ok hlabels₂).length_eq.symm.trans
        (Except.mapM_ok hlabels₁).length_eq
      refine ⟨rfl, rfl, rfl, hlength, fun i label hi hsteady => ?_, fun hall => ?_⟩
      · exact Except.mapM_agree hlabels₁ hlabels₂ hi (hagree label hsteady)
      · rw [Except.mapM_eq hlabels₁ hlabels₂ fun label hlabel => hagree label (hall label hlabel)]
    · refine .inr ⟨fault, by rw [hstop], a₁.declared, ht, label, hlabel, fun hsteady => ?_,
        resolveLabel_error hfault⟩
      obtain ⟨shown₁, -, hshown₁⟩ := exists_of_forall₂_left (Except.mapM_ok hlabels₁) hlabel
      rw [resolveLabel_stages h₁ h₂ hentity (hname ▸ hsteady), hshown₁] at hfault
      cases hfault

/-! ### Fields -/

theorem isReference_iff : f.type.isReference = true ↔ ∃ t, f.target? = some t := by
  rcases f with ⟨_, _, type⟩
  cases type <;> simp [FieldType.isReference, Field.target?, FieldType.target?]

theorem resolveField_eq (ht : f.target? = some t) : resolveField m owner f =
    (resolve m owner f).map fun target => { f with type := f.type.withTarget target } := by
  unfold resolveField
  rw [if_pos (isReference_iff.mpr ⟨t, ht⟩)]
  cases resolve m owner f <;> rfl

theorem resolveField_none (ht : f.target? = none) : resolveField m owner f = .ok f := by
  have hplain : ¬f.type.isReference = true := by
    rw [isReference_iff, ht]
    simp
  unfold resolveField
  rw [if_neg hplain]
  rfl

theorem target?_withTarget (ht : f.target? = some t) (target : Target) :
    { f with type := f.type.withTarget target }.target? = some target := by
  rcases f with ⟨_, _, type⟩
  cases type <;> first | rfl | cases ht

/-- A settled reference is shown as before when it is resolved. -/
theorem resolve_settled (hsettled : Settled m f) (hs : Stage m s) (ht : f.target? = some t)
    (h : resolve s owner f = .ok t₁) :
    labelsOfField { f with type := f.type.withTarget t₁ } = labelsOfField f := by
  obtain ⟨hbare, hexact⟩ := hsettled t ht
  rw [resolve_eq] at h
  obtain ⟨a, ha, h⟩ := Except.bind_ok h
  obtain ⟨labels, hlabels, h⟩ := Except.bind_ok h
  cases h
  obtain ⟨htarget, -, he, -, name, hname, hkey⟩ := aim_ok_iff.mp ha
  obtain rfl : t = a.declared := Option.some.inj (ht.symm.trans htarget)
  have hentity : a.entity.name = a.declared.entity := Model.entity?_name he
  unfold labelsOfField
  rw [target?_withTarget ht, ht]
  unfold shown at hlabels
  dsimp only
  split at hlabels
  · next hnone =>
    cases hlabels
    obtain ⟨key, hfield, hsees, hplain⟩ := hbare (List.isEmpty_iff.mp hnone)
    have hshown : a.key.name = key := by
      rw [hfield] at hname
      cases hname
      exact targetField_exact (hentity ▸ hs.sees.mpr hsees) hkey
    rw [if_pos hnone, hshown, hfield, Option.getD_some]
    simp [hplain]
  · next hsome =>
    have hself : a.declared.labels.mapM
        (resolveLabel s s!"{owner.name}.{f.name}" a.entity a.key.name) = .ok a.declared.labels :=
      Except.mapM_self fun label hlabel =>
        resolveLabel_exact (hentity ▸ hs.isExact (hexact label hlabel))
    rw [hself] at hlabels
    cases hlabels
    rw [if_neg hsome, if_neg hsome]

theorem resolveField_keeps (hs : Stage m s) (h : resolveField s owner f = .ok f') :
    KeepsField m f f' := by
  refine ⟨(resolveField_ok h).1, fun hsettled => ?_⟩
  cases ht : f.target? with
  | none =>
    rw [resolveField_none ht] at h
    cases h
    rfl
  | some t =>
    rw [resolveField_eq ht] at h
    cases hresolve : resolve s owner f with
    | error fault => rw [hresolve] at h; cases h
    | ok t₁ =>
      rw [hresolve] at h
      cases h
      exact resolve_settled hsettled hs ht hresolve

/-! ### Entities, one after the other -/

/-- Every field of the entity was resolved at some stage. -/
def Attained (m : Model) (e e' : Entity) : Prop :=
  List.Forall₂ (fun f f' => ∃ s, Stage m s ∧ resolveField s e f = .ok f') e.fields e'.fields

/-- A field of `m` could not be resolved at some stage. -/
def Refused (m : Model) (fault : ReferenceFault) : Prop :=
  ∃ e ∈ m.entities, ∃ f ∈ e.fields, ∃ s, Stage m s ∧ resolveField s e f = .error fault

/-- The entity is resolved, or one of its fields is not. -/
theorem resolveEntity_cases (hs : Stage m s) (he : m.entity? name = some e)
    (hs' : s.entity? name = some e) :
    (∃ e', resolveEntity name s = .ok (s.changeEntity name fun _ => e') ∧ Keeps m e e' ∧
      Attained m e e') ∨
    ∃ fault, resolveEntity name s = .error (.reference fault) ∧ Refused m fault := by
  unfold resolveEntity Model.tryEntity
  rw [hs']
  rcases Except.mapM_cases (resolveField s e) e.fields with
    ⟨fields, hfields⟩ | ⟨f, hf, fault, hfault, hstop⟩
  · have hall := Except.mapM_ok hfields
    refine .inl ⟨{ e with fields }, by dsimp only; rw [hfields]; rfl, ⟨?_, rfl⟩, ?_⟩
    · exact hall.imp fun _ _ h => resolveField_keeps hs h
    · exact hall.imp fun _ _ h => ⟨s, hs, h⟩
  · refine .inr ⟨fault, by dsimp only; rw [hstop]; rfl, ?_⟩
    exact ⟨e, Model.entity?_mem he, f, hf, s, hs, hfault⟩

/-- A round of the loop ends as its step does. -/
theorem resolveEntities_cons (names : List String) (name : String) (s : Model) :
    (resolveEntities (name :: names)).run s = match resolveEntity name s with
      | .ok s' => (resolveEntities names).run s'
      | .error failure => (.error failure, s) := by
  change (Pass.step (resolveEntity name) >>= fun _ => resolveEntities names).run s = _
  rw [run_bind, Pass.step_run]
  cases resolveEntity name s <;> rfl

/-- A run resolves the entities of these names, or stops where one cannot be resolved. -/
theorem resolveEntities_cases : ∀ {names : List String} {s : Model}, names.Nodup → Stage m s →
    (∀ name ∈ names, ∃ e, m.entity? name = some e ∧ s.entity? name = some e) →
    (∃ r, Ends (resolveEntities names) s () r ∧
      (∀ name, name ∉ names → r.entity? name = s.entity? name) ∧
      ∀ name ∈ names, ∀ e, m.entity? name = some e →
        ∃ e', r.entity? name = some e' ∧ Attained m e e') ∨
    ∃ fault r, (resolveEntities names).run s = (.error (.reference fault), r) ∧ Refused m fault
  | [], s, _, _, _ => .inl ⟨s, rfl, fun _ _ => rfl, by simp⟩
  | name :: rest, s, hnodup, hs, htodo => by
    obtain ⟨hnew, hnodup⟩ := List.nodup_cons.mp hnodup
    obtain ⟨e, he, hs'⟩ := htodo name List.mem_cons_self
    unfold Ends
    rw [resolveEntities_cons]
    rcases resolveEntity_cases hs he hs' with
      ⟨e', hstep, hkeeps, hattained⟩ | ⟨fault, hstep, hrefused⟩
    · rw [hstep]
      have hname : e'.name = name :=
        hkeeps.sameOutline.sameStanding.name.trans (Model.entity?_name he)
      have hother : ∀ other, other ≠ name →
          (s.changeEntity name fun _ => e').entity? other = s.entity? other :=
        fun other hne => Model.entity?_changeEntity_of_ne (fun _ _ => hname) hne
      have htodo' : ∀ other ∈ rest, ∃ x, m.entity? other = some x ∧
          (s.changeEntity name fun _ => e').entity? other = some x := by
        intro other hmem
        obtain ⟨x, hx, hsx⟩ := htodo other (List.mem_cons_of_mem _ hmem)
        exact ⟨x, hx, (hother other fun heq => hnew (heq ▸ hmem)).trans hsx⟩
      rcases resolveEntities_cases hnodup (hs.changeEntity hname he hkeeps) htodo' with
        ⟨r, hr, hkept, hall⟩ | hstop
      · refine .inl ⟨r, hr, fun other hnot => ?_, fun other hmem x hx => ?_⟩
        · obtain ⟨hne, hnot⟩ := List.ne_and_not_mem_of_not_mem_cons hnot
          rw [hkept other hnot, hother other hne]
        · rcases List.mem_cons.mp hmem with rfl | hmem
          · obtain rfl : e = x := Option.some.inj (he.symm.trans hx)
            refine ⟨e', (hkept _ hnew).trans ?_, hattained⟩
            exact Model.entity?_changeEntity hs' (hname.trans (Model.entity?_name hs').symm)
          · exact hall other hmem x hx
      · exact .inr hstop
    · rw [hstep]
      exact .inr ⟨fault, s, rfl, hrefused⟩

/-! ### Any order -/

theorem resolveAll_cases (hnodup : m.entityNames.Nodup) (hperm : s.entities.Perm m.entities) :
    (∃ r, Ends resolveAll s () r ∧
      ∀ e ∈ m.entities, ∃ e', r.entity? e.name = some e' ∧ Attained m e e') ∨
    ∃ fault r, resolveAll.run s = (.error (.reference fault), r) ∧ Refused m fault := by
  have hsame := Corresponds.of_perm hnodup hperm
  have hs : Stage m s := hsame.mono fun _ _ h => by cases h; exact Keeps.refl m _
  have hnodup' : s.entityNames.Nodup := (hperm.map Entity.name).nodup_iff.mpr hnodup
  have htodo : ∀ name ∈ s.entityNames, ∃ e, m.entity? name = some e ∧ s.entity? name = some e := by
    intro name hname
    obtain ⟨e', he'⟩ := Model.mem_entityNames.mp hname
    obtain ⟨e, he, rfl⟩ := hsame.back he'
    exact ⟨e, he, he'⟩
  rcases resolveEntities_cases hnodup' hs htodo with ⟨r, hr, -, hall⟩ | hstop
  · refine .inl ⟨r, hr, fun e he => hall e.name ?_ e (Model.entity?_of_mem hnodup he)⟩
    exact hs.mem_entityNames.mpr (List.mem_map_of_mem he)
  · exact .inr hstop

/-- All labels that references declare are steady. -/
def LabelsSteady (m : Model) : Prop :=
  ∀ e ∈ m.entities, ∀ f ∈ e.fields, ∀ t ∈ f.target?, ∀ label ∈ t.labels, Steady m t.entity label

instance : Decidable (LabelsSteady m) :=
  inferInstanceAs (Decidable (∀ e ∈ m.entities, ∀ f ∈ e.fields, ∀ t ∈ f.target?, _))

theorem resolveField_stages (h₁ : Stage m s₁) (h₂ : Stage m s₂)
    (h : resolveField s₁ owner f = .ok f') :
    (∃ f₂, resolveField s₂ owner f = .ok f₂) ∨
      ∃ fault, resolveField s₂ owner f = .error fault ∧ Wavers m owner f fault := by
  cases ht : f.target? with
  | none => exact .inl ⟨f, resolveField_none ht⟩
  | some t =>
    rw [resolveField_eq ht] at h ⊢
    cases hresolve : resolve s₁ owner f with
    | error fault => rw [hresolve] at h; cases h
    | ok t₁ =>
      rcases resolve_stages h₁ h₂ ht hresolve with ⟨t₂, ht₂, -⟩ | ⟨fault, hfault, hwavers⟩
      · exact .inl ⟨_, by rw [ht₂]; rfl⟩
      · exact .inr ⟨fault, by rw [hfault]; rfl, hwavers⟩

theorem LabelsSteady.not_wavers (h : LabelsSteady m) (he : e ∈ m.entities) (hf : f ∈ e.fields) :
    ¬Wavers m e f fault := by
  rintro ⟨t, ht, label, hlabel, hnot, -⟩
  exact hnot (h e he f hf t ht label hlabel)

/-- What stops one order but not another is a label that is not steady. -/
theorem resolveAll_stops (hnodup : m.entityNames.Nodup) (h₁ : m₁.entities.Perm m.entities)
    (h₂ : m₂.entities.Perm m.entities) (hr : Ends resolveAll m₁ () s) {failure : Failure}
    (hstop : resolveAll.run m₂ = (.error failure, s')) :
    ∃ e ∈ m.entities, ∃ f ∈ e.fields, ∃ fault, failure = .reference fault ∧
      Wavers m e f fault := by
  unfold Ends at hr
  rcases resolveAll_cases hnodup h₂ with
    ⟨r, hends, -⟩ | ⟨fault, r, hrun, e, he, f, hf, s₂, hs₂, hfault⟩
  · rw [hends] at hstop
    cases hstop
  · rw [hrun] at hstop
    cases hstop
    rcases resolveAll_cases hnodup h₁ with ⟨r₁, hends, hall⟩ | ⟨fault₁, r₁, hrun₁, -⟩
    · obtain ⟨e', -, hattained⟩ := hall e he
      obtain ⟨f', -, s₁, hs₁, hresolved⟩ := exists_of_forall₂_left hattained hf
      rcases resolveField_stages hs₁ hs₂ hresolved with ⟨f₂, hf₂⟩ | ⟨fault₂, hfault₂, hwavers⟩
      · rw [hf₂] at hfault
        cases hfault
      · rw [hfault₂] at hfault
        cases hfault
        exact ⟨e, he, f, hf, fault, rfl, hwavers⟩
    · rw [hrun₁] at hr
      cases hr

theorem resolveAll_ends (hnodup : m.entityNames.Nodup) (h₁ : m₁.entities.Perm m.entities)
    (h₂ : m₂.entities.Perm m.entities) (hsteady : LabelsSteady m)
    (hr : Ends resolveAll m₁ () s) : ∃ r, Ends resolveAll m₂ () r := by
  rcases resolveAll_cases hnodup h₂ with ⟨r, hends, -⟩ | ⟨fault, r, hrun, -⟩
  · exact ⟨r, hends⟩
  · obtain ⟨e, he, f, hf, _, -, hwavers⟩ := resolveAll_stops hnodup h₁ h₂ hr hrun
    exact absurd hwavers (hsteady.not_wavers he hf)

/-- The field of this number of the entity of this name refers to `t`. -/
def TargetAt (m : Model) (entity : String) (index : Nat) (t : Target) : Prop :=
  ∃ e f, m.entity? entity = some e ∧ e.fields[index]? = some f ∧ f.target? = some t

/-- A resolved reference of a run, with the stage at which it was resolved. -/
theorem resolveAll_target (hnodup : m.entityNames.Nodup) (hperm : m₁.entities.Perm m.entities)
    (h : Ends resolveAll m₁ () s') {index : Nat} (he : m.entity? name = some e)
    (hf : e.fields[index]? = some f) (ht : f.target? = some t) :
    ∃ t₁ s, TargetAt s' name index t₁ ∧ Stage m s ∧ resolve s e f = .ok t₁ := by
  unfold Ends at h
  rcases resolveAll_cases hnodup hperm with ⟨r, hends, hall⟩ | ⟨fault, r, hrun, -⟩
  · rw [hends] at h
    cases h
    obtain ⟨e', he', hattained⟩ := hall e (Model.entity?_mem he)
    rw [Model.entity?_name he] at he'
    obtain ⟨f', hf', s, hs, hresolved⟩ := getElem?_of_forall₂ hattained hf
    rw [resolveField_eq ht] at hresolved
    cases hresolve : resolve s e f with
    | error fault => rw [hresolve] at hresolved; cases hresolved
    | ok t₁ =>
      rw [hresolve] at hresolved
      cases hresolved
      exact ⟨t₁, s, ⟨e', _, he', hf', target?_withTarget ht t₁⟩, hs, hresolve⟩
  · rw [hrun] at h
    cases h

/-- In which order entities are resolved makes no difference but for labels that are not
steady. If all are, one order succeeds when the other does; if one order succeeds and the
other does not, it is because a label that is not steady leads nowhere there. Where both
succeed, references point at the same fields, show the same for steady labels, and are the
same if all their labels are. -/
theorem resolveAll_perm (hnodup : m.entityNames.Nodup) (hperm : m'.entities.Perm m.entities) :
    (LabelsSteady m → ((∃ r, Ends resolveAll m () r) ↔ ∃ r', Ends resolveAll m' () r')) ∧
    (∀ r failure r', Ends resolveAll m () r → resolveAll.run m' = (.error failure, r') →
      ∃ e ∈ m.entities, ∃ f ∈ e.fields, ∃ fault, failure = .reference fault ∧
        Wavers m e f fault) ∧
    ∀ r r', Ends resolveAll m () r → Ends resolveAll m' () r' →
      ∀ name index t, TargetAt m name index t →
        ∃ t₁ t₂, TargetAt r name index t₁ ∧ TargetAt r' name index t₂ ∧ Alike m t t₁ t₂ := by
  have hself : m.entities.Perm m.entities := .refl _
  refine ⟨fun hsteady => ⟨?_, ?_⟩, ?_, ?_⟩
  · rintro ⟨r, hr⟩
    exact resolveAll_ends hnodup hself hperm hsteady hr
  · rintro ⟨r, hr⟩
    exact resolveAll_ends hnodup hperm hself hsteady hr
  · exact fun r failure r' hr hstop => resolveAll_stops hnodup hself hperm hr hstop
  · rintro r r' hr hr' name index t ⟨e, f, he, hf, ht⟩
    obtain ⟨t₁, s₁, ht₁, hs₁, hresolve₁⟩ := resolveAll_target hnodup hself hr he hf ht
    obtain ⟨t₂, s₂, ht₂, hs₂, hresolve₂⟩ := resolveAll_target hnodup hperm hr' he hf ht
    refine ⟨t₁, t₂, ht₁, ht₂, ?_⟩
    rcases resolve_stages hs₁ hs₂ ht hresolve₁ with ⟨_, hsame, halike⟩ | ⟨fault, hfault, -⟩
    · rw [hresolve₂] at hsame
      cases hsame
      exact halike
    · rw [hresolve₂] at hfault
      cases hfault

/-- Persons have a name, and pets are known by their owner. -/
def person : Entity :=
  { Entity.named "Person" with
    fields := [.named "id" .int, .named "name" (.string Field.defaultLength)]
    keys := [{ fields := ["id"] }] }

def pet (labels : List String) : Entity :=
  { Entity.named "Pet" with
    fields := [.named "owner" (.xref { entity := "Person", labels })]
    keys := [{ fields := ["owner"] }] }

/-- A visit shows its pet by something of the owner. -/
def visit (label : String) : Entity :=
  { Entity.named "Visit" with
    fields := [.named "pet" (.xref { entity := "Pet", field := some "owner", labels := [label] })] }

def clinic (entities : List Entity) : Model := { Model.named "clinic" with entities }

/-- Pets declare that they show the name of the owner, so visits find it in any order. -/
theorem clinic_perm : ∃ r r' t₁ t₂,
    Ends resolveAll (clinic [person, pet ["name"], visit "owner_name"]) () r ∧
    Ends resolveAll (clinic [visit "owner_name", pet ["name"], person]) () r' ∧
    TargetAt r "Visit" 0 t₁ ∧ TargetAt r' "Visit" 0 t₂ ∧ t₂ = t₁ := by
  have hnodup : (clinic [person, pet ["name"], visit "owner_name"]).entityNames.Nodup := by
    decide +kernel
  have hperm : (clinic [visit "owner_name", pet ["name"], person]).entities.Perm
      (clinic [person, pet ["name"], visit "owner_name"]).entities := by decide +kernel
  have hsteady : LabelsSteady (clinic [person, pet ["name"], visit "owner_name"]) := by
    decide +kernel
  obtain ⟨hends, -, halike⟩ := resolveAll_perm hnodup hperm
  have hr : Ends resolveAll (clinic [person, pet ["name"], visit "owner_name"]) ()
      (resolveAll.run (clinic [person, pet ["name"], visit "owner_name"])).2 :=
    Prod.ext (by decide +kernel) rfl
  obtain ⟨r', hr'⟩ := (hends hsteady).mp ⟨_, hr⟩
  have hdeclared : TargetAt (clinic [person, pet ["name"], visit "owner_name"]) "Visit" 0
      { entity := "Pet", field := some "owner", labels := ["owner_name"] } :=
    ⟨visit "owner_name", _, by decide +kernel, rfl, rfl⟩
  obtain ⟨t₁, t₂, ht₁, ht₂, hsame⟩ := halike _ r' hr hr' _ _ _ hdeclared
  exact ⟨_, r', t₁, t₂, hr, hr', ht₁, ht₂, hsame.same (by decide +kernel)⟩

/-- Where pets do not say what they show, that is known only when they are resolved: visits
find the number of the owner if pets come before them. -/
theorem resolveAll_not_perm : ¬∀ m m' : Model, m.entityNames.Nodup →
    m'.entities.Perm m.entities →
    ((∃ r, Ends resolveAll m () r) ↔ ∃ r', Ends resolveAll m' () r') ∧
    ∀ r r', Ends resolveAll m () r → Ends resolveAll m' () r' → ∀ name index t₁ t₂,
      TargetAt r name index t₁ → TargetAt r' name index t₂ → t₁ = t₂ := by
  intro hall
  have hnodup : (clinic [person, pet [], visit "owner_id"]).entityNames.Nodup := by
    decide +kernel
  have hperm : (clinic [person, visit "owner_id", pet []]).entities.Perm
      (clinic [person, pet [], visit "owner_id"]).entities := by decide +kernel
  have hr : Ends resolveAll (clinic [person, pet [], visit "owner_id"]) ()
      (resolveAll.run (clinic [person, pet [], visit "owner_id"])).2 :=
    Prod.ext (by decide +kernel) rfl
  have hstop : (resolveAll.run (clinic [person, visit "owner_id", pet []])).1 =
      .error (.reference (.unknownLabel "owner_id" "Visit.pet" "Pet" ["owner_"])) := by
    decide +kernel
  obtain ⟨r', hr'⟩ := (hall _ _ hnodup hperm).1.mp ⟨_, hr⟩
  rw [hr'] at hstop
  cases hstop

end Reference

end EntitySchema
