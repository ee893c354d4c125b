import EntitySchema.Proofs.LinkLengths
import EntitySchema.Proofs.LinkNames

/-! Filling in links, once and for all. Every many-to-many field gets a link that is complete,
and a target; what documents declare is kept, and nothing else changes. A target that none
declares is the one that a column of the link entity refers to, or the owner on the other side
of the relation, and so it is in the end, whatever was filled in after it. Where names may have
any length, filling in again changes nothing. -/

namespace EntitySchema

open Entity (IsChange)
open Model (Evolves)

variable {m m' m₁ : Model} {dialect : Dialect} {e e' : Entity} {f f' : Field}

/-! ### What is kept -/

/-- The same target, but for an entity that was not declared. -/
structure Target.Kept (t t' : Target) : Prop where
  rest : { t' with entity := "" } = { t with entity := "" }
  entity : t.entity ≠ "" → t'.entity = t.entity

/-- The names that the link declares are kept. -/
structure Link.Kept (l l' : Link) : Prop where
  name : ∀ name, l.name = some name → l'.name = some name
  localId : ∀ column, l.localId = some column → l'.localId = some column
  remoteId : ∀ column, l.remoteId = some column → l'.remoteId = some column

/-- What a many-to-many field does not declare may be filled in; other fields stay as they are. -/
inductive Field.Filled (f : Field) : Field → Prop
  | same : Filled f f
  | filled {target target' : Target} {link link' : Link} (type : f.type = .mref target link)
      (target : target.Kept target') (link : link.Kept link') :
      Filled f { f with type := .mref target' link' }

/-- The same entity, but for what is filled in to its many-to-many fields. -/
def Entity.Filled (e e' : Entity) : Prop :=
  { e' with fields := [] } = { e with fields := [] } ∧
    List.Forall₂ Field.Filled e.fields e'.fields

theorem Target.Kept.trans {t₁ t₂ t₃ : Target} (h₁ : t₁.Kept t₂) (h₂ : t₂.Kept t₃) : t₁.Kept t₃ where
  rest := h₂.rest.trans h₁.rest
  entity hne := by
    have heq := h₁.entity hne
    exact (h₂.entity (heq ▸ hne)).trans heq

theorem Link.Kept.trans {l₁ l₂ l₃ : Link} (h₁ : l₁.Kept l₂) (h₂ : l₂.Kept l₃) : l₁.Kept l₃ where
  name n h := h₂.name n (h₁.name n h)
  localId c h := h₂.localId c (h₁.localId c h)
  remoteId c h := h₂.remoteId c (h₁.remoteId c h)

namespace Field

theorem Filled.trans {f₁ f₂ f₃ : Field} (h₁ : f₁.Filled f₂) (h₂ : f₂.Filled f₃) : f₁.Filled f₃ := by
  cases h₁ with
  | same => exact h₂
  | filled type target link =>
    cases h₂ with
    | same => exact .filled type target link
    | filled type' target' link' =>
      obtain ⟨rfl, rfl⟩ := FieldType.mref.inj type'
      exact .filled type (target.trans target') (link.trans link')

/-- A target that is there is kept. -/
theorem Filled.targetEntity? (h : f.Filled f') {entity : String}
    (htarget : f.targetEntity? = some entity) (hne : entity ≠ "") :
    f'.targetEntity? = some entity := by
  cases h with
  | same => exact htarget
  | filled type target =>
    rcases f with ⟨_, _, _⟩
    cases type
    obtain rfl := Option.some.inj htarget
    exact congrArg some (target.entity hne)

theorem Filled.linkName? (h : f.Filled f') {name : String} (hname : f.linkName? = some name) :
    f'.linkName? = some name := by
  cases h with
  | same => exact hname
  | filled type _ link =>
    rcases f with ⟨_, _, _⟩
    cases type
    exact link.name name hname

/-- What a many-to-many field declares is kept. -/
theorem Filled.kept {target target' : Target} {link link' : Link} (h : f.Filled f')
    (htype : f.type = .mref target link) (htype' : f'.type = .mref target' link') :
    target.Kept target' ∧ link.Kept link' := by
  cases h with
  | same =>
    obtain ⟨rfl, rfl⟩ := FieldType.mref.inj (htype.symm.trans htype')
    exact ⟨⟨rfl, fun _ => rfl⟩, ⟨fun _ h => h, fun _ h => h, fun _ h => h⟩⟩
  | filled type target link =>
    obtain ⟨rfl, rfl⟩ := FieldType.mref.inj (htype.symm.trans type)
    obtain ⟨rfl, rfl⟩ := FieldType.mref.inj htype'
    exact ⟨target, link⟩

/-- A field that is many-to-many then was so before. -/
theorem Filled.mref {target' : Target} {link' : Link} (h : f.Filled f')
    (htype : f'.type = .mref target' link') : ∃ target link, f.type = .mref target link := by
  cases h with
  | same => exact ⟨_, _, htype⟩
  | filled type => exact ⟨_, _, type⟩

end Field

theorem Entity.isChange_filled : IsChange Entity.Filled where
  refl _ := ⟨rfl, List.forall₂_same.mpr fun _ _ => .same⟩
  trans h₁ h₂ := ⟨h₂.1.trans h₁.1, forall₂_trans (R := Field.Filled) (·.trans) h₁.2 h₂.2⟩
  name h := (congrArg Entity.name h.1 :)

open Entity (isChange_filled)

namespace Link

variable {taken taken' : List String} {place other : Nat × Nat} {target target' : Target}
  {link link' : Link} {name entity : String}

/-- A model with more filled in: only fields change. -/
structure Filled (m m' : Model) : Prop where
  frame : m' = { m with entities := m'.entities }
  entities : List.Forall₂ Entity.Filled m.entities m'.entities

namespace Filled

theorem refl (m : Model) : Filled m m :=
  ⟨rfl, List.forall₂_same.mpr fun e _ => isChange_filled.refl e⟩

theorem trans (h₁ : Filled m m₁) (h₂ : Filled m₁ m') : Filled m m' where
  frame := by rw [h₂.frame, h₁.frame]
  entities := forall₂_trans (R := Entity.Filled) isChange_filled.trans h₁.entities h₂.entities

theorem evolves (h : Filled m m') : Evolves Entity.Filled [] m m' := .of_forall₂ h.entities

theorem entityNames (h : Filled m m') : m'.entityNames = m.entityNames := by
  simpa using h.evolves.entityNames isChange_filled

theorem fieldAt? (h : Filled m m') (hf : fieldAt? m place = some f) :
    ∃ f', Link.fieldAt? m' place = some f' ∧ f.Filled f' := by
  obtain ⟨e, he, hf⟩ := Option.bind_eq_some_iff.mp hf
  obtain ⟨e', he', hfilled⟩ := getElem?_of_forall₂ h.entities he
  obtain ⟨f', hf', hfilled⟩ := getElem?_of_forall₂ hfilled.2 hf
  exact ⟨f', by simp [Link.fieldAt?, he', hf'], hfilled⟩

/-- A field that is there then was there before. -/
theorem fieldAt?_back (h : Filled m m') (hf : Link.fieldAt? m' place = some f') :
    ∃ f, Link.fieldAt? m place = some f ∧ f.Filled f' := by
  obtain ⟨e', he', hf'⟩ := Option.bind_eq_some_iff.mp hf
  obtain ⟨e, he, hfilled⟩ := getElem?_of_forall₂ h.entities.flip he'
  obtain ⟨f, hf, hfilled⟩ := getElem?_of_forall₂ hfilled.2.flip hf'
  exact ⟨f, by simp [Link.fieldAt?, he, hf], hfilled⟩

end Filled

/-- What is filled in at a place. -/
theorem changeType_filled (hf : fieldAt? m place = some f) (htype : f.type = .mref target link)
    (htarget : target.Kept target') (hlink : link.Kept link') :
    Filled m (changeType place (fun _ => .mref target' link') m) := by
  refine ⟨rfl, forall₂_modify isChange_filled.refl fun e he => ⟨rfl, ?_⟩⟩
  refine forall₂_modify (fun _ => .same) fun g hg => ?_
  obtain rfl : g = f := by simpa [fieldAt?, he, hg] using hf
  exact .filled htype htarget hlink

theorem complete_kept {owner field : String}
    (h : complete m dialect taken owner field target link = .ok (target', link', name)) :
    target.Kept target' ∧ link.Kept link' := by
  obtain ⟨localId, remoteId, hname, hrest, htarget, hremote, hlocal, rfl⟩ := complete_cases h
  refine ⟨⟨by rw [hrest], fun hne => ?_⟩, fun declared hdeclared => ?_, fun column hcolumn => ?_,
    fun column hcolumn => ?_⟩
  · rcases htarget with ⟨-, hsame⟩ | ⟨hempty, -⟩
    · exact hsame
    · exact absurd hempty hne
  · rcases linkName_ok hname with hsame | ⟨hnone, -⟩
    · exact hsame.symm.trans hdeclared
    · rw [hdeclared] at hnone
      cases hnone
  · rcases hlocal with ⟨hsame, -⟩ | ⟨hnone, -⟩
    · exact hsame.symm.trans hcolumn
    · rw [hcolumn] at hnone
      cases hnone
  · rw [hremote, hcolumn]
    rfl

theorem Completes.fillsIn (h : Completes dialect taken place m taken' m') : Filled m m' := by
  cases h with
  | filled _ hplace htype hcomplete =>
    obtain ⟨htarget, hlink⟩ := complete_kept hcomplete
    exact changeType_filled hplace htype htarget hlink
  | skipped => exact .refl m

/-! ### Targets that are not declared -/

/-- Where the target of the field at a place may come from: a reference field of the link
entity, or the owner of another field through the link that has a target. -/
inductive Infers (m : Model) (place : Nat × Nat) (link : String) : String → Prop
  | column {j : Entity} {f : Field} {entity : String} (found : m.entity? link = some j)
      (own : f ∈ j.fields) (target : f.targetEntity? = some entity) (nonempty : entity ≠ "") :
      Infers m place link entity
  | otherSide {other : Nat × Nat} {e : Entity} {f : Field} {entity : String}
      (elsewhere : other ≠ place) (owner : m.entities[other.1]? = some e)
      (field : fieldAt? m other = some f) (linked : f.linkName? = some link)
      (target : f.targetEntity? = some entity) (nonempty : entity ≠ "") :
      Infers m place link e.name

/-- What a target comes from is there still when more is filled in. -/
theorem Infers.filled (h : Infers m place name entity) (hm : Filled m m') :
    Infers m' place name entity := by
  cases h with
  | column hfound hown htarget hne =>
    obtain ⟨j', hfound', hfilled⟩ := hm.evolves.entity? isChange_filled hfound
    obtain ⟨f', hown', hfilled⟩ := exists_of_forall₂_left hfilled.2 hown
    exact .column hfound' hown' (hfilled.targetEntity? htarget hne) hne
  | otherSide helse howner hfield hlinked htarget hne =>
    obtain ⟨e', howner', hfilled⟩ := getElem?_of_forall₂ hm.entities howner
    obtain ⟨f', hfield', hfilled'⟩ := hm.fieldAt? hfield
    rw [← isChange_filled.name hfilled]
    exact .otherSide helse howner' hfield' (hfilled'.linkName? hlinked)
      (hfilled'.targetEntity? htarget hne) hne

theorem targetOfColumn?_some {j : Entity} {owner : String} {remoteId : Option String}
    (h : targetOfColumn? j owner remoteId = some entity) :
    entity ≠ "" ∧ ∃ f ∈ j.fields, f.targetEntity? = some entity := by
  unfold targetOfColumn? at h
  dsimp only at h
  obtain ⟨h, hne⟩ := Option.filter_eq_some_iff.mp h
  obtain ⟨f, hf, htarget⟩ := Option.bind_eq_some_iff.mp h
  refine ⟨by simpa using hne, f, ?_, htarget⟩
  split at hf
  · exact List.mem_of_find?_eq_some hf
  · exact List.mem_of_find?_eq_some hf

theorem otherOwner?_some (howner : m.entities[place.1]? = some e)
    (hfield : fieldAt? m place = some f) (h : otherOwner? m e.name f.name name = some entity) :
    Infers m place name entity := by
  obtain ⟨x, hx, rfl⟩ := Option.map_eq_some_iff.mp h
  have hfound := List.find?_some hx
  obtain ⟨g, hg, hother⟩ := List.any_eq_true.mp hfound
  obtain ⟨hg, hdiffer⟩ := List.mem_filter.mp hg
  obtain ⟨i, hi⟩ := List.mem_iff_getElem?.mp (List.mem_of_find?_eq_some hx)
  obtain ⟨k, hk⟩ := List.mem_iff_getElem?.mp hg
  simp only [isOtherSide, Bool.and_eq_true, decide_eq_true_eq, Option.any_eq_true] at hother
  obtain ⟨hlinked, t, htarget, hne⟩ := hother
  have hplace : fieldAt? m (i, k) = some g := by simp [fieldAt?, hi, hk]
  refine .otherSide (fun hsame => ?_) hi hplace hlinked htarget hne
  subst hsame
  obtain rfl : e = x := Option.some.inj (howner.symm.trans hi)
  obtain rfl : f = g := by simpa [fieldAt?, hi, hk] using hfield.symm
  simp at hdiffer

theorem inferTarget?_some (howner : m.entities[place.1]? = some e)
    (hfield : fieldAt? m place = some f) {remoteId : Option String}
    (h : inferTarget? m e.name f.name name remoteId = some entity) :
    Infers m place name entity := by
  unfold inferTarget? at h
  split at h
  · next j hj =>
    obtain ⟨hne, g, hg, htarget⟩ := targetOfColumn?_some h
    exact .column hj hg htarget hne
  · exact otherOwner?_some howner hfield h

/-- Where entities have names, a target that is found is no empty name. -/
theorem Infers.nonempty (h : Infers m place name entity) (hm : "" ∉ m.entityNames) :
    entity ≠ "" := by
  cases h with
  | column _ _ _ hne => exact hne
  | otherSide _ howner =>
    rintro hempty
    exact hm (hempty ▸ List.mem_map_of_mem (List.mem_of_getElem? howner))

/-! ### All rounds -/

theorem completeAll_fillsIn {todo : List (Nat × Nat)}
    (h : Ends (todo.foldlM (completeAt dialect) taken) m taken' m') : Filled m m' :=
  h.foldlM_keeps (fun _ s => Filled m s)
    (fun _ _ _ _ _ _ hround hm => hm.trans (completeAt_cases hround).fillsIn) (.refl m)

theorem completeAll_elsewhere {todo : List (Nat × Nat)} (hplace : place ∉ todo)
    (h : Ends (todo.foldlM (completeAt dialect) taken) m taken' m') :
    fieldAt? m' place = fieldAt? m place :=
  h.foldlM_keeps (fun _ s => fieldAt? s place = fieldAt? m place)
    (fun other hother _ _ _ _ hround hm => by
      have hne : place ≠ other := fun hsame => hplace (hsame ▸ hother)
      exact ((completeAt_cases hround).elsewhere hne).trans hm) rfl

theorem assignNames_fillsIn (h : Ends (assignNames dialect) m () m') : Filled m m' := by
  obtain ⟨_, m₁, hloop, h⟩ := h.get_bind.bind
  obtain ⟨-, rfl⟩ := h.pure
  exact completeAll_fillsIn hloop

/-- A place has one round, and what is there before it and after it does not change. -/
theorem assignNames_round (h : Ends (assignNames dialect) m () m') (hmem : place ∈ places m) :
    ∃ taken₁ m₁ taken₂ m₂, Filled m m₁ ∧ fieldAt? m₁ place = fieldAt? m place ∧
      Completes dialect taken₁ place m₁ taken₂ m₂ ∧ Filled m₂ m' ∧
      fieldAt? m' place = fieldAt? m₂ place := by
  obtain ⟨before, after, taken₁, m₁, taken₂, m₂, _, -, hearlier, hlater, hfirst, hround, hrest⟩ :=
    assignNames_rounds h hmem
  have hbefore : place ∉ before := fun hp => (hearlier place hp).ne rfl
  have hafter : place ∉ after := fun hp => (hlater place hp).ne rfl
  exact ⟨taken₁, m₁, taken₂, m₂, completeAll_fillsIn hfirst, completeAll_elsewhere hbefore hfirst,
    completeAt_cases hround, completeAll_fillsIn hrest, completeAll_elsewhere hafter hrest⟩

/-! ### In the end -/

/-- The target and the link of the field at a place, when all is filled in. -/
structure Settled (dialect : Dialect) (m : Model) (place : Nat × Nat) (declared target : Target)
    (link : Link) : Prop where
  complete : ∃ name localId remoteId, link = ⟨some name, some localId, some remoteId⟩
  fits : ∀ name limit, link.name = some name → dialect.limit? = some limit → name.length ≤ limit
  apart : dialect.limit? = none → link.localId ≠ link.remoteId
  inferred : declared.entity = "" → ∀ name, link.name = some name →
    Infers m place name target.entity

/-- Without a limit, the column made up for the owner is not that for the target. -/
theorem ownColumn_ne {owner remote : String} (hlimit : dialect.limit? = none) :
    ownColumn owner remote dialect ≠ remote := by
  unfold ownColumn
  split
  · next hself =>
    subst hself
    intro hsame
    unfold selfColumn Identifier.mangle at hsame
    rw [hlimit] at hsame
    have hlength : (owner ++ "_self").length = owner.length := congrArg String.length hsame
    rw [String.length_append] at hlength
    exact absurd (Nat.add_eq_left.mp hlength) (by decide)
  · next hother => exact hother

theorem complete_settled (howner : m.entities[place.1]? = some e)
    (hfield : fieldAt? m place = some f)
    (h : complete m dialect taken e.name f.name target link = .ok (target', link', name)) :
    Settled dialect m place target target' link' := by
  obtain ⟨localId, remoteId, hname, -, htarget, -, hlocal, rfl⟩ := complete_cases h
  refine ⟨⟨name, localId, remoteId, rfl⟩, fun _ limit hsame hlimit => ?_, fun hlimit hsame => ?_,
    fun hempty _ hsame => ?_⟩
  · obtain rfl := Option.some.inj hsame
    exact linkName_length hlimit hname
  · obtain rfl := Option.some.inj hsame
    rcases hlocal with ⟨-, hne⟩ | ⟨-, hmade⟩
    · exact hne rfl
    · exact ownColumn_ne hlimit hmade.symm
  · obtain rfl := Option.some.inj hsame
    rcases htarget with ⟨hne, -⟩ | ⟨-, hinfer⟩
    · exact absurd hempty hne
    · exact inferTarget?_some howner hfield hinfer

theorem Settled.fillsIn {declared : Target} (h : Settled dialect m place declared target link)
    (hm : Filled m m') : Settled dialect m' place declared target link where
  complete := h.complete
  fits := h.fits
  apart := h.apart
  inferred hempty name hname := (h.inferred hempty name hname).filled hm

theorem assignNames_settled (h : Ends (assignNames dialect) m () m')
    (hfield : fieldAt? m' place = some f') (htype : f'.type = .mref target' link') :
    ∃ f target link, fieldAt? m place = some f ∧ f.type = .mref target link ∧
      Settled dialect m' place target target' link' := by
  obtain ⟨f, hf, hfilled⟩ := (assignNames_fillsIn h).fieldAt?_back hfield
  obtain ⟨target, link, htype₀⟩ := hfilled.mref htype
  have hlink : linkAt? m place = some link := by
    rw [linkAt?_eq, hf, Option.bind_some, htype₀]
    rfl
  obtain ⟨taken₁, m₁, taken₂, m₂, -, hbefore, hround, hafter, hsame⟩ :=
    assignNames_round h (mem_places hlink)
  refine ⟨f, target, link, hf, htype₀, Settled.fillsIn ?_ hafter⟩
  rw [hf] at hbefore
  have hround' := hround.fillsIn
  cases hround with
  | @filled e g t t' l l' name howner hplace ht hcomplete =>
    obtain rfl : f = g := Option.some.inj (hbefore.symm.trans hplace)
    obtain ⟨rfl, rfl⟩ := FieldType.mref.inj (htype₀.symm.trans ht)
    rw [hsame, fieldAt?_changeType_self hplace] at hfield
    cases hfield
    obtain ⟨rfl, rfl⟩ := FieldType.mref.inj htype
    exact (complete_settled howner hplace hcomplete).fillsIn hround'
  | skipped hnone =>
    have hmref := hnone f hbefore
    rw [Field.isMref_of_type htype₀] at hmref
    cases hmref

/-! ### Once more -/

theorem modify_same {α : Type} {xs : List α} {i : Nat} {x : α} {change : α → α}
    (hx : xs[i]? = some x) (hsame : change x = x) : xs.modify i change = xs := by
  refine List.ext_getElem? fun j => ?_
  rw [List.getElem?_modify]
  by_cases hij : i = j
  · subst hij
    simp [hx, hsame]
  · simp [hij]

theorem changeType_self (hfield : fieldAt? m place = some f) :
    changeType place (fun _ => f.type) m = m := by
  obtain ⟨e, he, hf⟩ := Option.bind_eq_some_iff.mp hfield
  have hfields : (e.fields.modify place.2 fun g => { g with type := f.type }) = e.fields :=
    modify_same hf rfl
  unfold changeType
  rw [modify_same he (by rw [hfields])]

/-- What is filled in stays when it is filled in once more. -/
theorem complete_again {owner field localId remoteId : String} (hlimit : dialect.limit? = none)
    (hne : target.entity ≠ "") (hapart : localId ≠ remoteId) :
    complete m dialect taken owner field target ⟨some name, some localId, some remoteId⟩ =
      .ok (target, ⟨some name, some localId, some remoteId⟩, name) := by
  unfold complete linkName
  rw [hlimit]
  simp [hne, hapart]
  rfl

/-- Where all is filled in, a round changes nothing. -/
theorem completeAt_settled (hlimit : dialect.limit? = none)
    (hm : ∀ f target link, fieldAt? m place = some f → f.type = .mref target link →
      target.entity ≠ "" ∧ ∃ name localId remoteId,
        link = ⟨some name, some localId, some remoteId⟩ ∧ localId ≠ remoteId)
    (taken : List String) :
    ∃ taken', Ends (completeAt dialect taken place) m taken' m := by
  unfold completeAt
  cases he : m.entities[place.1]? with
  | none => exact ⟨taken, Ends.get_bind_of (by rw [he]; rfl)⟩
  | some e =>
    cases hf : e.fields[place.2]? with
    | none => exact ⟨taken, Ends.get_bind_of (by rw [he]; dsimp only; rw [hf]; rfl)⟩
    | some f =>
      have hfield : fieldAt? m place = some f := by simp [fieldAt?, he, hf]
      cases htype : f.type with
      | mref target link =>
        obtain ⟨hne, name, localId, remoteId, rfl, hapart⟩ := hm f target link hfield htype
        have hchange : Ends (Pass.change (changeType place fun _ => f.type)) m () m := by
          show (Except.ok (), changeType place (fun _ => f.type) m) = _
          rw [changeType_self hfield]
        refine ⟨name :: taken, Ends.get_bind_of ?_⟩
        rw [he]
        dsimp only
        rw [hf]
        dsimp only
        rw [htype] at hchange ⊢
        refine Ends.bind_of (congrArg (·, m) (complete_again hlimit hne hapart)) ?_
        exact Ends.bind_of hchange rfl
      | _ =>
        refine ⟨taken, Ends.get_bind_of ?_⟩
        rw [he]
        dsimp only
        rw [hf]
        dsimp only
        rw [htype]
        rfl

/-- Where all is filled in, filling in again succeeds and changes nothing. -/
theorem assignNames_again (hlimit : dialect.limit? = none)
    (hm : ∀ place f target link, fieldAt? m place = some f → f.type = .mref target link →
      target.entity ≠ "" ∧ ∃ name localId remoteId,
        link = ⟨some name, some localId, some remoteId⟩ ∧ localId ≠ remoteId) :
    Ends (assignNames dialect) m () m := by
  have hrounds : ∀ (todo : List (Nat × Nat)) (taken : List String), ∃ taken',
      Ends (todo.foldlM (completeAt dialect) taken) m taken' m := by
    intro todo
    induction todo with
    | nil => exact fun taken => ⟨taken, rfl⟩
    | cons place todo ih =>
      intro taken
      obtain ⟨taken₁, hround⟩ := completeAt_settled hlimit (hm place) taken
      obtain ⟨taken₂, hrest⟩ := ih taken₁
      rw [List.foldlM_cons]
      exact ⟨taken₂, hround.bind_of hrest⟩
  obtain ⟨taken', hall⟩ := hrounds (places m) m.entityNames
  exact Ends.get_bind_of (hall.bind_of rfl)

/-- When links are named successfully, only fields change, and only many-to-many ones, which
keep what they declare. Each of them has a name for its link, which fits the dialect, and two
columns; where names may have any length, these differ. A target that was not declared is that
of a reference field of the link entity, or the owner of another field through the link that
has a target; so it is empty only if there is an entity with an empty name. Where names may
have any length and no target is empty, naming links again succeeds and changes nothing. -/
theorem links_filled (h : Ends (assignNames dialect) m () m') :
    (m' = { m with entities := m'.entities } ∧
      List.Forall₂ Entity.Filled m.entities m'.entities) ∧
    (∀ place f' target' link', fieldAt? m' place = some f' → f'.type = .mref target' link' →
      ∃ f target link, fieldAt? m place = some f ∧ f.type = .mref target link ∧
        target.Kept target' ∧ link.Kept link' ∧
        Settled dialect m' place target target' link' ∧
        ("" ∉ m.entityNames → target'.entity ≠ "")) ∧
    (dialect.limit? = none →
      (∀ place f target link, fieldAt? m' place = some f → f.type = .mref target link →
        target.entity ≠ "") → Ends (assignNames dialect) m' () m') := by
  have hfilled := assignNames_fillsIn h
  refine ⟨⟨hfilled.frame, hfilled.entities⟩, fun place f' target' link' hfield htype => ?_,
    fun hlimit htargets => assignNames_again hlimit fun place f target link hfield htype => ?_⟩
  · obtain ⟨f, target, link, hf, htype₀, hsettled⟩ := assignNames_settled h hfield htype
    obtain ⟨f₁, hf₁, hkept⟩ := hfilled.fieldAt?_back hfield
    obtain rfl : f = f₁ := Option.some.inj (hf.symm.trans hf₁)
    obtain ⟨htarget, hlink⟩ := hkept.kept htype₀ htype
    refine ⟨f, target, link, hf, htype₀, htarget, hlink, hsettled, fun hnames => ?_⟩
    by_cases hempty : target.entity = ""
    · obtain ⟨name, _, _, hcomplete⟩ := hsettled.complete
      have hinfers := hsettled.inferred hempty name (by rw [hcomplete])
      exact hinfers.nonempty (hfilled.entityNames ▸ hnames)
    · exact fun hnone => hempty (htarget.entity hempty ▸ hnone)
  · obtain ⟨_, _, _, -, -, hsettled⟩ := assignNames_settled h hfield htype
    obtain ⟨name, localId, remoteId, rfl⟩ := hsettled.complete
    exact ⟨htargets place f target _ hfield htype, name, localId, remoteId, rfl,
      fun hsame => hsettled.apart hlimit (congrArg some hsame)⟩

/-- Teams and their players, where the other side does not say that it is for teams; and mentors
of people, in a link entity that says who can be one. -/
def clubs : Model :=
  { Model.empty with entities := [
      { Entity.named "Team" with
        fields := [Field.named "id" .int, Field.named "players" (.mref { entity := "Person" } {})] },
      { Entity.named "Person" with
        fields := [Field.named "id" .int,
          Field.named "teams" (.mref { entity := "" } { name := "Team_players" }),
          Field.named "mentors"
            (.mref { entity := "" } { name := "Mentoring", remoteId := "mentor" })] },
      { Entity.named "Mentoring" with
        fields := [Field.named "id" .int, Field.named "mentor" (.xref { entity := "Person" })] }] }

/-- The targets of teams and mentors are found on the other side and in the link entity, and
naming links again changes nothing. -/
theorem clubs_filled : ∃ m', Ends (assignNames .generic) clubs () m' ∧
    Infers m' (1, 1) "Team_players" "Team" ∧ Infers m' (1, 2) "Mentoring" "Person" ∧
    Ends (assignNames .generic) m' () m' := by
  have hrun : Ends (assignNames .generic) clubs () ((assignNames .generic).run clubs).2 :=
    Prod.ext (by decide +kernel) rfl
  have hteams : fieldAt? ((assignNames .generic).run clubs).2 (1, 1) =
      some (Field.named "teams" (.mref { entity := "Team" }
        ⟨some "Team_players", some "Person", some "Team"⟩)) := by
    decide +kernel
  have hmentors : fieldAt? ((assignNames .generic).run clubs).2 (1, 2) =
      some (Field.named "mentors" (.mref { entity := "Person" }
        ⟨some "Mentoring", some "Person", some "mentor"⟩)) := by
    decide +kernel
  obtain ⟨-, hsettled, hagain⟩ := links_filled hrun
  refine ⟨_, hrun, ?_, ?_, hagain rfl fun place f target link hfield htype => ?_⟩
  · obtain ⟨f, target, link, hf, htype, -, -, hsettled, -⟩ := hsettled _ _ _ _ hteams rfl
    cases hf
    cases htype
    exact hsettled.inferred rfl _ rfl
  · obtain ⟨f, target, link, hf, htype, -, -, hsettled, -⟩ := hsettled _ _ _ _ hmentors rfl
    cases hf
    cases htype
    exact hsettled.inferred rfl _ rfl
  · obtain ⟨_, _, _, -, -, -, -, -, htargeted⟩ := hsettled place f target link hfield htype
    exact htargeted (by decide)

/-- A relation whose other side belongs to an entity with an empty name. -/
def nameless : Model :=
  { Model.empty with entities := [
      { Entity.named "Team" with
        fields := [Field.named "players" (.mref { entity := "" } { name := "Squad" })] },
      { Entity.named "" with
        fields := [Field.named "teams" (.mref { entity := "Team" } { name := "Squad" })] }] }

/-- A target that is found can be empty. -/
theorem links_not_always_targeted : ¬∀ (dialect : Dialect) (m m' : Model),
    Ends (assignNames dialect) m () m' → ∀ place f target link, fieldAt? m' place = some f →
      f.type = .mref target link → target.entity ≠ "" := by
  intro h
  have hrun : Ends (assignNames .generic) nameless () ((assignNames .generic).run nameless).2 :=
    Prod.ext (by decide +kernel) rfl
  have hfield : fieldAt? ((assignNames .generic).run nameless).2 (0, 0) =
      some (Field.named "players" (.mref { entity := "" }
        ⟨some "Squad", some "Team", some ""⟩)) := by
    decide +kernel
  exact h .generic nameless _ hrun (0, 0) _ _ _ hfield rfl rfl

end Link

end EntitySchema
