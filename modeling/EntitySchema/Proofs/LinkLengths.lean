import EntitySchema.Proofs.FreeNames
import EntitySchema.Proofs.Headings
import EntitySchema.Proofs.LegalNames
import EntitySchema.Proofs.Naming
import Mathlib.Data.List.ReduceOption

/-! Lengths of the names of links. A name that is made up is cut to the limit of the
dialect, and lower case makes no name in ASCII longer. So where documents give short names
in ASCII, the names of a link and its columns fit, or one is the name of the target. -/

namespace EntitySchema

open Entity (isChange_sameUnlinked)

variable {m m' : Model} {dialect : Dialect} {limit : Nat} {name : String}

/-! ### Short names -/

namespace Identifier

/-- Every limit leaves room for the digest. -/
theorem digestLength_lt (h : dialect.limit? = some limit) : digestLength < limit := by
  cases dialect <;> cases h <;> decide

/-- The name is in ASCII, and no longer than the limit. -/
def Brief (limit : Nat) (name : String) : Prop :=
  (∀ c ∈ name.toList, c.toNat < 0x80) ∧ name.length ≤ limit

instance : Decidable (Brief limit name) :=
  @instDecidableAnd _ _ (List.decidableBAll _ _) inferInstance

/-- In ASCII, lower case is as long as the text. -/
theorem lowerAfter_length : ∀ {before cs : List Char}, (∀ c ∈ cs, c.toNat < 0x80) →
    (Text.Casing.lowerAfter before cs).length = cs.length
  | _, [], _ => rfl
  | before, c :: rest, h => by
    obtain ⟨hc, hrest⟩ := List.forall_mem_cons.mp h
    have hsigma : ¬(c.toNat == 0x3A3) = true := by
      rw [beq_iff_eq]
      omega
    unfold Text.Casing.lowerAfter
    rw [if_neg hsigma, Text.Casing.lowerChar, if_pos hc, List.length_append,
      lowerAfter_length hrest, List.length_singleton, List.length_cons, Nat.add_comm]

theorem Brief.lower (h : Brief limit name) : (Text.lower name).length ≤ limit := by
  rw [Text.lower, String.length_ofList, lowerAfter_length h.1, String.length_toList]
  exact h.2

end Identifier

open Identifier (Brief Fits)

/-! ### Names of links -/

/-- The names that are given to the link entity and its columns. -/
def Link.names (l : Link) : List String := [l.name, l.localId, l.remoteId].reduceOption

/-- The names in a model: of entities and fields, and those given to links. -/
def Model.names (m : Model) : List String :=
  m.entities.flatMap fun e => e.name ::
    e.fields.flatMap fun f => f.name :: (f.type.link?.map Link.names).getD []

/-- All names of the link fit, but for those that are the name of the target. -/
def Link.FitsFor (limit : Nat) (target : String) (l : Link) : Prop :=
  ∀ name ∈ l.names, name.length ≤ limit ∨ name = target

/-- If the field is many-to-many, its link fits. -/
def Field.LinkFits (limit : Nat) (f : Field) : Prop :=
  ∀ target link, f.type = .mref target link → link.FitsFor limit target.entity

theorem Field.LinkFits.heading {f f' : Field} (h : f.LinkFits limit)
    (htype : f'.type.heading = f.type.heading) : f'.LinkFits limit := by
  intro target' link' htype'
  rw [htype'] at htype
  rcases f with ⟨_, _, type⟩
  cases type with
  | mref target link =>
    obtain ⟨htarget, rfl⟩ := FieldType.mref.inj htype
    rw [congrArg Target.entity htarget]
    exact h target link' rfl
  | _ => cases htype

namespace Link

theorem mem_names {l : Link} :
    name ∈ l.names ↔ l.name = some name ∨ l.localId = some name ∨ l.remoteId = some name := by
  simp [names, List.reduceOption_mem_iff, eq_comm]

theorem fitsFor_mk {target localId remoteId : String} :
    Link.FitsFor limit target ⟨some name, some localId, some remoteId⟩ ↔
      (name.length ≤ limit ∨ name = target) ∧ (localId.length ≤ limit ∨ localId = target) ∧
        (remoteId.length ≤ limit ∨ remoteId = target) := by
  simp [FitsFor, names, List.reduceOption]

variable {taken taken' : List String} {place : Nat × Nat} {kind : Field → Prop}

/-! ### When links are named -/

theorem linkName_length {owner field : String} {declared : Option String}
    (hlimit : dialect.limit? = some limit)
    (h : linkName dialect taken owner field declared = .ok name) : name.length ≤ limit := by
  unfold linkName at h
  rw [hlimit] at h
  dsimp only at h
  split at h
  · split at h
    · cases h
    · next hshort =>
      cases h
      exact Nat.not_lt.mp hshort
  · split at h
    · next hfree =>
      cases h
      exact Identifier.free?_length (Identifier.digestLength_lt hlimit) hfree
    · cases h

theorem ownColumn_length {owner : String} (hlimit : dialect.limit? = some limit)
    (howner : owner.length ≤ limit) (remote : String) :
    (ownColumn owner remote dialect).length ≤ limit := by
  unfold ownColumn selfColumn
  split
  · rw [hlimit]
    exact Identifier.mangle_length (Identifier.digestLength_lt hlimit) _
  · exact howner

/-- What is filled in: a target where none was declared, and columns. -/
theorem complete_filled {owner field : String} {target target' : Target} {link link' : Link}
    (h : complete m dialect taken owner field target link = .ok (target', link', name)) :
    ∃ localId, linkName dialect taken owner field link.name = .ok name ∧
      (target'.entity = target.entity ∨ target.entity = "") ∧
      (link.localId = some localId ∨
        localId = ownColumn owner (link.remoteId.getD target'.entity) dialect) ∧
      link' = ⟨some name, some localId, some (link.remoteId.getD target'.entity)⟩ := by
  obtain ⟨localId, remoteId, hname, -, htarget, rfl, hlocal, rfl⟩ := complete_cases h
  exact ⟨localId, hname, htarget.imp And.right And.left, hlocal.imp And.left And.right, rfl⟩

/-- What is filled in fits, as long as what was declared does. -/
theorem complete_fits {owner field : String} {target target' : Target} {link link' : Link}
    (hlimit : dialect.limit? = some limit) (howner : owner.length ≤ limit)
    (hlink : link.FitsFor limit target.entity)
    (h : complete m dialect taken owner field target link = .ok (target', link', name)) :
    link'.FitsFor limit target'.entity := by
  obtain ⟨localId, hname, htarget, hlocal, rfl⟩ := complete_filled h
  have hdeclared : ∀ id ∈ link.names, id.length ≤ limit ∨ id = target'.entity := by
    intro id hid
    rcases hlink id hid with hshort | rfl
    · exact .inl hshort
    · exact htarget.symm.imp (fun hempty => by simp [hempty]) Eq.symm
  have hremote : ∀ id, link.remoteId.getD target'.entity = id →
      id.length ≤ limit ∨ id = target'.entity := by
    rintro id rfl
    cases hid : link.remoteId with
    | none => exact .inr rfl
    | some remote => exact hdeclared remote (mem_names.mpr (.inr (.inr hid)))
  refine fitsFor_mk.mpr ⟨.inl (linkName_length hlimit hname), ?_, hremote _ rfl⟩
  rcases hlocal with hlocal | rfl
  · exact hdeclared localId (mem_names.mpr (.inr (.inl hlocal)))
  · exact .inl (ownColumn_length hlimit howner _)

/-- The field at a place gets another type, and every field is of the kind then. -/
theorem changeType_fields {type : FieldType} {f : Field} (hm : m.AllFields kind)
    (hf : fieldAt? m place = some f) (hkind : kind { f with type }) :
    (changeType place (fun _ => type) m).AllFields kind := by
  intro e' he' f' hf'
  have hentities : List.Forall₂
      (fun e e' : Entity => (∀ f ∈ e.fields, kind f) → ∀ f ∈ e'.fields, kind f)
      m.entities (changeType place (fun _ => type) m).entities := by
    refine forall₂_modify (fun _ => id) fun e he hfields g' hg' => ?_
    have hall : List.Forall₂ (fun f f' : Field => kind f → kind f') e.fields
        (e.fields.modify place.2 fun f => { f with type }) := by
      refine forall₂_modify (fun _ => id) fun g hg _ => ?_
      obtain rfl : g = f := by simpa [fieldAt?, he, hg] using hf
      exact hkind
    obtain ⟨g, hg, hkeeps⟩ := exists_of_forall₂_right hall hg'
    exact hkeeps (hfields g hg)
  obtain ⟨e, he, hkeeps⟩ := exists_of_forall₂_right hentities he'
  exact hkeeps (hm e he) f' hf'

/-- Names of entities fit, and so do links. -/
structure LinksFit (limit : Nat) (m : Model) : Prop where
  entities : m.All fun e => e.name.length ≤ limit
  links : m.AllFields (Field.LinkFits limit)

theorem Completes.fits (hlimit : dialect.limit? = some limit)
    (h : Completes dialect taken place m taken' m') (hm : LinksFit limit m) :
    LinksFit limit m' := by
  refine ⟨hm.entities.evolves h.unlinked fun _ _ h => ?_, ?_⟩
  · rw [isChange_sameUnlinked.name h]
    exact id
  · cases h with
    | @filled e f target target' link link' name howner hplace htype hcomplete =>
      refine changeType_fields hm.links hplace fun _ _ hnew => ?_
      obtain ⟨rfl, rfl⟩ := FieldType.mref.inj hnew
      have he := List.mem_of_getElem? howner
      have hf : f ∈ e.fields := by
        rw [fieldAt?, howner] at hplace
        exact List.mem_of_getElem? hplace
      exact complete_fits hlimit (hm.entities e he) (hm.links e he f hf target link htype) hcomplete
    | skipped => exact hm.links

theorem assignNames_fits (hlimit : dialect.limit? = some limit)
    (h : Ends (assignNames dialect) m () m') (hm : LinksFit limit m) : LinksFit limit m' := by
  obtain ⟨_, m₁, hloop, h⟩ := h.get_bind.bind
  obtain ⟨-, rfl⟩ := h.pure
  exact hloop.foldlM_keeps (fun _ m => LinksFit limit m)
    (fun _ _ _ _ _ _ h hm => (completeAt_cases h).fits hlimit hm) hm

/-! ### When fields move -/

theorem move_fits {e : Entity} {f : Field} {moved moved' : Moved}
    (hlimit : dialect.limit? = some limit) (he : e.name.length ≤ limit) (hf : f.LinkFits limit)
    (h : move dialect e moved f = .ok moved') (hmoved : ∀ f ∈ moved.copies, f.LinkFits limit) :
    ∀ f ∈ moved'.copies, f.LinkFits limit := by
  rcases move_cases h with ⟨rfl, -⟩ | ⟨target, link, name, htype, -, hfree, rfl⟩
  · exact hmoved
  · intro copy hcopy
    rcases List.mem_append.mp hcopy with hcopy | hcopy
    · exact hmoved copy hcopy
    · rw [List.mem_singleton.mp hcopy]
      intro target' link' hnew
      obtain ⟨rfl, rfl⟩ := FieldType.mref.inj hnew
      have hname : name.length ≤ limit :=
        Identifier.free?_length (Identifier.digestLength_lt hlimit) (hlimit ▸ hfree)
      have hremote : ∀ id, link.remoteId.getD target.entity = id →
          id.length ≤ limit ∨ id = target.entity := by
        rintro id rfl
        cases hid : link.remoteId with
        | none => exact .inr rfl
        | some remote =>
          exact hf target link htype remote (mem_names.mpr (.inr (.inr hid)))
      exact fitsFor_mk.mpr ⟨.inl hname, .inl (ownColumn_length hlimit he _), hremote _ rfl⟩

theorem relocate_fits {u : Unit} (hlimit : dialect.limit? = some limit)
    (h : Ends (relocate dialect) m u m') (hm : LinksFit limit m) : LinksFit limit m' := by
  obtain ⟨_, moved, hloop, h⟩ := h.get_bind.bind
  obtain rfl := Pass.change_ends h
  have hmoved : LinksFit limit moved := hloop.foldlM_keeps (fun _ m => LinksFit limit m)
    (fun name _ taken _ m m' hstep hm => by
      rcases moveTo_cases hstep with ⟨rfl, -⟩ | ⟨e, moved, he, -, hmoved, -, rfl⟩
      · exact hm
      · have hcopies : ∀ f ∈ moved.copies, f.LinkFits limit := by
          refine Except.foldlM_ok (fun moved : Moved => ∀ f ∈ moved.copies, f.LinkFits limit)
            (fun f hf _ _ hmove => ?_) hmoved (by simp)
          obtain ⟨i, hi, hf⟩ := List.mem_flatMap.mp hf
          exact move_fits hlimit (hm.entities e (Model.entity?_mem he))
            (hm.links i (Model.entity?_mem (Model.mem_ownInterfaces.mp hi).1) f hf) hmove
        exact ⟨hm.entities.changeEntity fun _ _ h => h,
          hm.links.changeEntity fun _ _ hfields f hf =>
            (List.mem_append.mp hf).elim (hfields f) (hcopies f)⟩) hm
  refine ⟨fun e' he' => ?_, fun e' he' f hf => ?_⟩
  all_goals obtain ⟨e, he, hstrips, hsubset⟩ := stripInterfaces_mem he'
  · exact hstrips.sameStanding.name ▸ hmoved.entities e he
  · exact hmoved.links e he f (hsubset hf)

end Link

end EntitySchema
