import EntitySchema.Proofs.Correspondence
import EntitySchema.Proofs.Resolution
import Mathlib.Data.List.TakeWhile

/-! Labels that are found alike at every stage of resolution. While references are
resolved one after the other, the labels of a key field may change under the labels that
are composed of them. They do not change if the field names what it is resolved to
already; and a label that is found without regard to other key fields is found alike
whichever references were resolved before. -/

namespace EntitySchema

open Entity (SameOutline)
open Model (Corresponds)

variable {m s : Model} {e e' target target' : Entity} {f f' : Field}
  {entity label key context : String}

theorem Text.splitAtFirst_eq {sep : Char} {s before after : String}
    (h : splitAtFirst sep s = some (before, after)) :
    s.toList = before.toList ++ sep :: after.toList := by
  unfold splitAtFirst at h
  dsimp only at h
  have happend := List.takeWhile_append_dropWhile (p := fun c => decide (c ≠ sep)) (l := s.toList)
  split at h
  · cases h
  · next c rest hdrop =>
    have hsep : c = sep := by
      have hhead := List.head?_dropWhile_not (fun c => decide (c ≠ sep)) s.toList
      rw [hdrop] at hhead
      simpa using hhead
    cases h
    subst hsep
    rw [String.toList_ofList, String.toList_ofList, ← hdrop]
    exact happend.symm

theorem Text.splitAtFirst_isSome {sep : Char} {s : String} :
    (splitAtFirst sep s).isSome = s.toList.contains sep := by
  have hnil : s.toList.dropWhile (fun c => decide (c ≠ sep)) = [] ↔ sep ∉ s.toList := by
    rw [List.dropWhile_eq_nil_iff]
    exact ⟨fun hall hmem => by simpa using hall sep hmem,
      fun hnot c hc => decide_eq_true fun heq => hnot (heq ▸ hc)⟩
  unfold splitAtFirst
  dsimp only
  split
  · next hdrop => simpa using hnil.mp hdrop
  · next c rest hdrop =>
    rw [hdrop] at hnil
    simpa using hnil

theorem find?_eq_of_unique {α : Type} {p : α → Bool} {xs ys : List α}
    (hmem : ∀ {a}, a ∈ ys ↔ a ∈ xs)
    (hunique : ∀ a ∈ xs, ∀ b ∈ xs, p a = true → p b = true → a = b) :
    ys.find? p = xs.find? p := by
  cases hx : xs.find? p with
  | none =>
    rw [List.find?_eq_none] at hx ⊢
    exact fun a ha => hx a (hmem.mp ha)
  | some a =>
    have ha := List.mem_of_find?_eq_some hx
    obtain ⟨b, hb⟩ := Option.isSome_iff_exists.mp
      (List.find?_isSome.mpr ⟨a, hmem.mpr ha, List.find?_some hx⟩)
    rw [hb, hunique a ha b (hmem.mp (List.mem_of_find?_eq_some hb)) (List.find?_some hx)
      (List.find?_some hb)]

theorem Model.find?_entityName (m : Model) (p : String → Bool) :
    (m.entities.find? fun e => p e.name).map (·.name) = m.entityNames.find? p := by
  unfold entityNames
  rw [List.find?_map]
  rfl

namespace Reference

/-! ### Labels that are resolved to themselves -/

/-- The label names a visible field as it is written, after the name of its entity if
there is a dot in it. -/
def IsExact (m : Model) (entity label : String) : Prop :=
  (∀ path ∈ Text.splitAtFirst '.' label, m.hasEntity path.1 = true ∧ m.Sees path.1 path.2) ∧
    (Text.splitAtFirst '.' label = none → m.Sees entity label)

instance : Decidable (IsExact m entity label) := inferInstanceAs (Decidable (_ ∧ _))

/-- The reference names what it is resolved to already. -/
def Settled (m : Model) (f : Field) : Prop :=
  ∀ t ∈ f.target?, (t.labels = [] →
    ∃ key ∈ t.field, m.Sees t.entity key ∧ underscored key = key) ∧
      ∀ label ∈ t.labels, IsExact m t.entity label

instance : Decidable (Settled m f) := inferInstanceAs (Decidable (∀ t ∈ f.target?, _ ∧ _))

/-- The visible fields that the keys of an entity name. -/
def keyFields (m : Model) (entity : String) : List Field :=
  ((m.allKeys entity).flatMap (·.fields)).filterMap (m.visibleField? entity)

/-- The label is found without regard to the order of entities, and to the labels of
references that are still to be resolved. -/
def Steady (m : Model) (entity label : String) : Prop :=
  (∀ path ∈ Text.splitAtFirst '.' label, m.hasEntity path.1 = true ∨
    ∀ e ∈ m.entities, ∀ e' ∈ m.entities, Text.sameIgnoringCase e.name path.1 = true →
      Text.sameIgnoringCase e'.name path.1 = true → e.name = e'.name) ∧
    (Text.splitAtFirst '.' label = none → m.visibleFieldIgnoringCase? entity label ≠ none ∨
      (∃ f ∈ keyFields m entity, Settled m f ∧ label ∈ labelsOfField f) ∨
      ∀ f ∈ keyFields m entity, Settled m f)

instance : Decidable (Steady m entity label) := inferInstanceAs (Decidable (_ ∧ _))

theorem candidateLabels_eq (m : Model) (entity : String) :
    candidateLabels m entity = ((keyFields m entity).flatMap labelsOfField).eraseDups := by
  unfold candidateLabels keyFields
  congr 1
  induction (m.allKeys entity).flatMap (·.fields) with
  | nil => rfl
  | cons name rest ih =>
    rw [List.flatMap_cons, ih, List.filterMap_cons]
    cases m.visibleField? entity name <;> rfl

theorem visibleFieldIgnoringCase?_of_sees {field : String} (h : m.Sees entity field) :
    ∃ f, m.visibleFieldIgnoringCase? entity field = some f ∧ f.name = field := by
  obtain ⟨f, hf⟩ := Model.sees_iff_visibleField?.mp h
  have hname : f.name = field := by simpa using List.find?_some hf
  refine ⟨f, ?_, hname⟩
  unfold Model.visibleField? at hf
  simp [Model.visibleFieldIgnoringCase?, hf]

/-- An exact label is resolved to itself. -/
theorem resolveLabel_exact (h : IsExact m target.name label) :
    resolveLabel m context target key label = .ok label := by
  obtain ⟨hpath, hplain⟩ := h
  unfold resolveLabel
  cases hsplit : Text.splitAtFirst '.' label with
  | some path =>
    have hdot : label.toList.contains '.' = true := by rw [← Text.splitAtFirst_isSome, hsplit]; rfl
    obtain ⟨hentity, hsees⟩ := hpath path hsplit
    obtain ⟨e, he⟩ := Model.hasEntity_iff.mp hentity
    have hname := Model.entity?_name he
    obtain ⟨f, hf, hfield⟩ := visibleFieldIgnoringCase?_of_sees hsees
    have hfound : m.findPath? label = some (e, f) := by
      simp [Model.findPath?, hsplit, Model.entityIgnoringCase?, he, hname, hf]
    rw [if_pos hdot, hfound]
    dsimp only
    rw [hname, hfield]
    refine congrArg Except.ok (String.toList_inj.mp ?_)
    rw [Text.splitAtFirst_eq hsplit]
    simp [toString]
  | none =>
    have hdot : label.toList.contains '.' = false := by rw [← Text.splitAtFirst_isSome, hsplit]; rfl
    obtain ⟨f, hf, hfield⟩ := visibleFieldIgnoringCase?_of_sees (hplain hsplit)
    rw [hdot, if_neg Bool.false_ne_true]
    split
    · rfl
    · simp only [hf, hfield]

/-! ### What resolution keeps -/

/-- What resolution may make of a field of `m`. -/
structure KeepsField (m : Model) (f f' : Field) : Prop where
  outline : f'.outline = f.outline
  labels : Settled m f → labelsOfField f' = labelsOfField f

/-- What resolution may make of an entity of `m`. -/
structure Keeps (m : Model) (e e' : Entity) : Prop where
  fields : List.Forall₂ (KeepsField m) e.fields e'.fields
  rest : { e' with fields := [] } = { e with fields := [] }

theorem Keeps.refl (m : Model) (e : Entity) : Keeps m e e :=
  ⟨List.forall₂_same.mpr fun _ _ => ⟨rfl, fun _ => rfl⟩, rfl⟩

theorem Keeps.sameOutline (h : Keeps m e e') : SameOutline e e' :=
  ⟨map_eq_of_forall₂ (R := KeepsField m) (fun _ _ h => h.outline) h.fields, h.rest⟩

theorem KeepsField.name (h : KeepsField m f f') : f'.name = f.name :=
  Field.name_of_outline h.outline

/-- A model at some stage of the resolution of `m`, with its entities in any order. -/
abbrev Stage (m s : Model) : Prop := Corresponds (Keeps m) m s

namespace Stage

variable (h : Stage m s)

include h in
theorem visibleFieldIgnoringCase? (entity field : String) :
    Option.Rel (KeepsField m) (m.visibleFieldIgnoringCase? entity field)
      (s.visibleFieldIgnoringCase? entity field) :=
  Corresponds.visibleFieldIgnoringCase? h (fun _ _ h => h.sameOutline.sameStanding)
    (fun _ _ h => h.name) (fun _ _ h => h.fields) entity field

include h in
theorem keyFields (entity : String) :
    List.Forall₂ (KeepsField m) (keyFields m entity) (Reference.keyFields s entity) := by
  unfold Reference.keyFields
  rw [h.allKeys (fun _ _ h => h.sameOutline.sameStanding) (fun _ _ h => h.sameOutline.keys)]
  refine List.rel_filterMap (R := Eq) (P := KeepsField m) (fun a b hab => ?_)
    (List.forall₂_same.mpr fun _ _ => rfl)
  exact hab ▸ h.visibleField? (fun _ _ h => h.sameOutline.sameStanding) (fun _ _ h => h.name)
    (fun _ _ h => h.fields) entity a

include h in
theorem sees {entity field : String} : s.Sees entity field ↔ m.Sees entity field :=
  Corresponds.sees h (fun _ _ h => h.sameOutline.sameStanding) (fun _ _ h => h.name)
    fun _ _ h => h.fields

include h in
theorem isExact (hlabel : IsExact m entity label) : IsExact s entity label := by
  refine ⟨fun path hpath => ?_, fun hnone => h.sees.mpr (hlabel.2 hnone)⟩
  obtain ⟨hentity, hsees⟩ := hlabel.1 path hpath
  exact ⟨(h.hasEntity _).trans hentity, h.sees.mpr hsees⟩

/-! ### Steady labels -/

include h in
/-- The entity that a path names is called the same in both models. -/
theorem entityIgnoringCase? {name : String} (hname : m.hasEntity name = true ∨
    ∀ e ∈ m.entities, ∀ e' ∈ m.entities, Text.sameIgnoringCase e.name name = true →
      Text.sameIgnoringCase e'.name name = true → e.name = e'.name) :
    (s.entityIgnoringCase? name).map (·.name) = (m.entityIgnoringCase? name).map (·.name) := by
  unfold Model.entityIgnoringCase?
  have hexact := h name
  cases he : m.entity? name with
  | some e =>
    obtain ⟨e', he', -⟩ := h.forward he
    simp [he', Model.entity?_name he, Model.entity?_name he']
  | none =>
    rw [he] at hexact
    have hnone : m.hasEntity name = false := by
      rw [← Bool.not_eq_true, Model.hasEntity_iff, he]
      simp
    have hunique := hname.resolve_left (by simp [hnone])
    generalize s.entity? name = found at hexact
    cases hexact
    rw [Option.none_or, Option.none_or,
      Model.find?_entityName s fun a => Text.sameIgnoringCase a name,
      Model.find?_entityName m fun a => Text.sameIgnoringCase a name]
    refine find?_eq_of_unique (h.mem_entityNames) fun a ha b hb hpa hpb => ?_
    obtain ⟨e, he, rfl⟩ := List.mem_map.mp ha
    obtain ⟨e', he', rfl⟩ := List.mem_map.mp hb
    exact hunique e he e' he' hpa hpb

include h in
theorem findPath? (hlabel : Steady m entity label) :
    (s.findPath? label).map (fun p => (p.1.name, p.2.name)) =
      (m.findPath? label).map fun p => (p.1.name, p.2.name) := by
  unfold Model.findPath?
  cases hsplit : Text.splitAtFirst '.' label with
  | none => rfl
  | some path =>
    have hentity := h.entityIgnoringCase? (hlabel.1 path hsplit)
    dsimp only [Option.bind_eq_bind, Option.bind_some]
    cases he : m.entityIgnoringCase? path.1 with
    | none =>
      rw [he] at hentity
      rw [Option.map_eq_none_iff.mp hentity]
      rfl
    | some e =>
      rw [he] at hentity
      obtain ⟨e', he', hname⟩ := Option.map_eq_some_iff.mp hentity
      have hfield := h.visibleFieldIgnoringCase? e.name path.2
      rw [he', Option.bind_some, Option.bind_some, hname]
      generalize m.visibleFieldIgnoringCase? e.name path.2 = found at hfield ⊢
      generalize s.visibleFieldIgnoringCase? e.name path.2 = found' at hfield ⊢
      cases hfield with
      | none => rfl
      | some hfield => simp [hname, hfield.name]

include h in
/-- What is composed of settled references alone can be shown in both models. -/
theorem candidateLabels (hall : ∀ f ∈ Reference.keyFields m entity, Settled m f) :
    Reference.candidateLabels s entity = Reference.candidateLabels m entity := by
  have hlabels : ∀ {fs fs' : List Field}, List.Forall₂ (KeepsField m) fs fs' →
      (∀ f ∈ fs, Settled m f) → fs'.flatMap labelsOfField = fs.flatMap labelsOfField := by
    intro fs fs' hfields
    induction hfields with
    | nil => exact fun _ => rfl
    | cons hf _ ih =>
      intro hall
      obtain ⟨hsettled, hrest⟩ := List.forall_mem_cons.mp hall
      rw [List.flatMap_cons, List.flatMap_cons, hf.labels hsettled, ih hrest]
  rw [candidateLabels_eq, candidateLabels_eq, hlabels (h.keyFields entity) hall]

include h in
theorem mem_candidateLabels (hf : f ∈ Reference.keyFields m entity) (hsettled : Settled m f)
    (hlabel : label ∈ labelsOfField f) : label ∈ Reference.candidateLabels s entity := by
  obtain ⟨f', hf', hkeeps⟩ := exists_of_forall₂_left (h.keyFields entity) hf
  rw [candidateLabels_eq, List.mem_eraseDups, List.mem_flatMap]
  exact ⟨f', hf', (hkeeps.labels hsettled).symm ▸ hlabel⟩

include h in
/-- A steady label is resolved at every stage as it would be at the beginning. -/
theorem resolveLabel (hname : target'.name = target.name) (hlabel : Steady m target.name label) :
    Reference.resolveLabel s context target' key label =
      Reference.resolveLabel m context target key label := by
  unfold Reference.resolveLabel
  rw [hname]
  cases hdot : label.toList.contains '.' with
  | true =>
    have hpath := h.findPath? hlabel
    generalize m.findPath? label = found at hpath ⊢
    generalize s.findPath? label = found' at hpath ⊢
    cases found <;> cases found' <;> simp_all
  | false =>
    have hfield := h.visibleFieldIgnoringCase? target.name label
    have hplain := hlabel.2 (by
      rw [← Option.not_isSome_iff_eq_none, Text.splitAtFirst_isSome, hdot]
      exact Bool.false_ne_true)
    simp only [Bool.false_eq_true, if_false]
    congr 1
    generalize m.visibleFieldIgnoringCase? target.name label = found at hfield hplain ⊢
    generalize s.visibleFieldIgnoringCase? target.name label = found' at hfield ⊢
    cases hfield with
    | some hfield => exact congrArg Except.ok hfield.name
    | none =>
      rcases hplain.resolve_left (fun hne => hne rfl) with ⟨f, hf, hsettled, hmem⟩ | hall
      · have hshown := mem_candidateLabels (Corresponds.refl (Keeps.refl m) m) hf hsettled hmem
        simp [hshown, h.mem_candidateLabels hf hsettled hmem]
      · rw [h.candidateLabels hall]

end Stage

end Reference

end EntitySchema
