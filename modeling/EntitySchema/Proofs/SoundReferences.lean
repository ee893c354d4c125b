import EntitySchema.Proofs.Chains
import EntitySchema.Proofs.ResolutionOrder

/-! What a reference is resolved to. The entity is the declared one, and the field referred to
is visible on it, in one of its keys and not of type text. A label that is shown is a path that
leads where it says, the name of a field, or a candidate; and a declared label that is none of
these stands for the only candidate that ends in it. -/

namespace EntitySchema

/-! ### Paths -/

namespace Text

variable {a b name s before after : String} {sep : Char}

theorem toLower_eq_dot {c : Char} : c.toLower = '.' ↔ c = '.' := by
  refine ⟨fun h => ?_, fun h => by rw [h]; rfl⟩
  unfold Char.toLower at h
  split at h
  · next hcapital =>
    -- capitals are moved to small letters, which come after the dot
    have hcode := congrArg (fun c : Char => c.val.toNat) h
    simp only [UInt32.toNat_add] at hcode
    have hfirst : 65 ≤ c.val.toNat := hcapital.1
    have hlast : c.val.toNat ≤ 90 := hcapital.2
    have hshift : ('a'.val - 'A'.val).toNat = 32 := rfl
    have hdot : ('.' : Char).val.toNat = 46 := rfl
    omega
  · exact h

theorem dot_mem_of_same (h : sameIgnoringCase a b = true) :
    '.' ∈ a.toList ↔ '.' ∈ b.toList := by
  have hfold : ∀ s : String, '.' ∈ (foldAscii s).toList ↔ '.' ∈ s.toList := fun s => by
    simp [foldAscii, toLower_eq_dot]
  rw [← hfold a, ← hfold b, eq_of_beq h]

/-- What is found by its name, or else by its name in another letter case. -/
theorem same_of_found {α : Type} (nameOf : α → String) {xs : List α} {x : α}
    (h : (xs.find? fun y => nameOf y = name).or
      (xs.find? fun y => sameIgnoringCase (nameOf y) name) = some x) :
    sameIgnoringCase (nameOf x) name = true := by
  rcases Option.or_eq_some_iff.mp h with h | ⟨-, h⟩
  · have hname : nameOf x = name := by simpa using List.find?_some h
    exact beq_iff_eq.mpr (congrArg foldAscii hname)
  · have hsame := List.find?_some h
    exact hsame

theorem splitAtFirst_before (h : splitAtFirst sep s = some (before, after)) :
    sep ∉ before.toList := by
  unfold splitAtFirst at h
  dsimp only at h
  split at h
  · cases h
  · cases h
    rw [String.toList_ofList]
    exact fun hmem => by simpa using List.mem_takeWhile_imp hmem

theorem splitAtFirst_append (h : sep ∉ before.toList) :
    splitAtFirst sep (String.ofList (before.toList ++ sep :: after.toList)) =
      some (before, after) := by
  have hbefore : ∀ c ∈ before.toList, decide (c ≠ sep) = true := fun c hc =>
    decide_eq_true fun heq => h (heq ▸ hc)
  unfold splitAtFirst
  dsimp only
  rw [String.toList_ofList, List.dropWhile_append_of_pos hbefore,
    List.takeWhile_append_of_pos hbefore, List.dropWhile_cons_of_neg (by simp),
    List.takeWhile_cons_of_neg (by simp), List.append_nil]
  simp

end Text

namespace Reference

open Model (visibleField?_of_mem)

variable {m : Model} {e owner target : Entity} {f key : Field} {declared t : Target}
  {entity name label display context path : String}

theorem same_of_entityIgnoringCase? (h : m.entityIgnoringCase? name = some e) :
    Text.sameIgnoringCase e.name name = true :=
  Text.same_of_found Entity.name h

theorem same_of_visibleFieldIgnoringCase? (h : m.visibleFieldIgnoringCase? entity name = some f) :
    Text.sameIgnoringCase f.name name = true :=
  Text.same_of_found Field.name h

/-- The entity that is found comes first among those of its own name. -/
theorem entity?_of_entityIgnoringCase? (h : m.entityIgnoringCase? name = some e) :
    m.entity? e.name = some e := by
  have hsame := same_of_entityIgnoringCase? h
  unfold Model.entityIgnoringCase? at h
  rcases Option.or_eq_some_iff.mp h with h | ⟨-, h⟩
  · exact Model.entity?_self h
  · obtain ⟨-, front, rest, hsplit, hfront⟩ := List.find?_eq_some_iff_append.mp h
    refine List.find?_eq_some_iff_append.mpr ⟨by simp, front, rest, hsplit, fun x hx => ?_⟩
    have hdiffers := hfront x hx
    by_cases hname : x.name = e.name
    · rw [hname, hsame] at hdiffers
      cases hdiffers
    · simp [hname]

theorem mem_of_visibleFieldIgnoringCase? (h : m.visibleFieldIgnoringCase? entity name = some f) :
    f ∈ m.allFields entity := by
  unfold Model.visibleFieldIgnoringCase? at h
  rcases Option.or_eq_some_iff.mp h with h | ⟨-, h⟩
  · exact List.mem_of_find?_eq_some h
  · exact List.mem_of_find?_eq_some h

/-- What a path leads to is led to by its own path as well. -/
theorem findPath?_self (h : m.findPath? path = some (e, f)) :
    m.findPath? s!"{e.name}.{f.name}" = some (e, f) := by
  unfold Model.findPath? at h
  obtain ⟨⟨entityName, fieldName⟩, hsplit, h⟩ := Option.bind_eq_some_iff.mp h
  obtain ⟨e', he, h⟩ := Option.bind_eq_some_iff.mp h
  obtain ⟨f', hf, h⟩ := Option.bind_eq_some_iff.mp h
  cases h
  have hdot : '.' ∉ e.name.toList := by
    rw [Text.dot_mem_of_same (same_of_entityIgnoringCase? he)]
    exact Text.splitAtFirst_before hsplit
  have hpath : s!"{e.name}.{f.name}" = String.ofList (e.name.toList ++ '.' :: f.name.toList) :=
    String.toList_inj.mp (by simp [toString])
  have hentity : m.entityIgnoringCase? e.name = some e := by
    rw [Model.entityIgnoringCase?, entity?_of_entityIgnoringCase? he, Option.some_or]
  have hfield : m.visibleFieldIgnoringCase? e.name f.name = some f := by
    have hvisible := visibleField?_of_mem (mem_of_visibleFieldIgnoringCase? hf)
    unfold Model.visibleField? at hvisible
    rw [Model.visibleFieldIgnoringCase?, hvisible, Option.some_or]
  rw [hpath, Model.findPath?, Text.splitAtFirst_append hdot]
  simp [hentity, hfield]

/-! ### Labels -/

/-- In lower case, the candidate is the label, or it ends in an underscore and the label. -/
def EndsIn (label candidate : String) : Prop :=
  Text.lower candidate = Text.lower label ∨
    ∃ stem, Text.lower candidate = stem ++ "_" ++ Text.lower label

theorem suits_iff {candidate : String} : suits label candidate = true ↔ EndsIn label candidate := by
  unfold suits EndsIn
  dsimp only
  rw [Bool.or_eq_true, decide_eq_true_eq, List.isSuffixOf_iff_suffix]
  refine or_congr_right ⟨?_, ?_⟩
  · rintro ⟨stem, hstem⟩
    refine ⟨String.ofList stem, String.toList_inj.mp ?_⟩
    rw [← hstem]
    simp
  · rintro ⟨stem, hstem⟩
    exact ⟨stem.toList, by rw [hstem]; simp⟩

/-- What is shown for a label of a reference to the field `key` of the entity. -/
structure ShownFor (m : Model) (entity key label display : String) : Prop where
  /-- It is a path that leads to its entity and its field, the field referred to, a visible
  field, or a candidate. -/
  named : (∃ e f, display = s!"{e.name}.{f.name}" ∧ m.findPath? display = some (e, f)) ∨
    display = key ∨ m.Sees entity display ∨ display ∈ candidateLabels m entity
  /-- A label that names nothing stands for the only candidate that ends in it. -/
  matched : '.' ∉ label.toList → label ≠ key →
    (∀ f ∈ m.allFields entity, Text.sameIgnoringCase f.name label = false) →
    label ∉ candidateLabels m entity →
    display ∈ candidateLabels m entity ∧ EndsIn label display ∧
      ∀ candidate ∈ candidateLabels m entity, EndsIn label candidate → candidate = display

theorem resolveLabel_named {key : String}
    (h : resolveLabel m context target key label = .ok display) :
    (∃ e f, display = s!"{e.name}.{f.name}" ∧ m.findPath? display = some (e, f)) ∨
      display = key ∨ m.Sees target.name display ∨ display ∈ candidateLabels m target.name := by
  unfold resolveLabel at h
  split at h
  · split at h
    · next e f hpath =>
      cases h
      exact .inl ⟨e, f, rfl, findPath?_self hpath⟩
    · cases h
  split at h
  · next hkey => cases h; exact .inr (.inl hkey)
  split at h
  · next hfield => cases h; exact .inr (.inr (.inl (sees_of_visibleFieldIgnoringCase? hfield)))
  dsimp only at h
  split at h
  · next hmem => cases h; exact .inr (.inr (.inr (by simpa using hmem)))
  split at h
  · cases h
  split at h
  · next hsingle =>
    cases h
    exact .inr (.inr (.inr (List.mem_of_mem_filter (hsingle ▸ List.mem_singleton_self display))))
  · cases h

/-- No visible field has the name, in whatever letter case. -/
theorem visibleFieldIgnoringCase?_eq_none
    (h : ∀ f ∈ m.allFields entity, Text.sameIgnoringCase f.name name = false) :
    m.visibleFieldIgnoringCase? entity name = none := by
  refine Option.eq_none_iff_forall_ne_some.mpr fun f hf => ?_
  have hdiffers := h f (mem_of_visibleFieldIgnoringCase? hf)
  rw [same_of_visibleFieldIgnoringCase? hf] at hdiffers
  cases hdiffers

theorem resolveLabel_matched {key : String}
    (h : resolveLabel m context target key label = .ok display) (hdot : '.' ∉ label.toList)
    (hkey : label ≠ key)
    (hfields : ∀ f ∈ m.allFields target.name, Text.sameIgnoringCase f.name label = false)
    (hcandidate : label ∉ candidateLabels m target.name) :
    display ∈ candidateLabels m target.name ∧ EndsIn label display ∧
      ∀ candidate ∈ candidateLabels m target.name, EndsIn label candidate → candidate = display := by
  unfold resolveLabel at h
  rw [if_neg (by simpa using hdot), if_neg hkey, visibleFieldIgnoringCase?_eq_none hfields] at h
  dsimp only at h
  rw [if_neg (by simpa using hcandidate)] at h
  split at h
  · cases h
  split at h
  · next hsingle =>
    cases h
    have hmem : ∀ candidate, candidate = display ↔
        candidate ∈ candidateLabels m target.name ∧ EndsIn label candidate := fun candidate => by
      rw [← List.mem_singleton, ← hsingle, List.mem_filter, suits_iff]
    obtain ⟨hdisplay, hends⟩ := (hmem display).mp rfl
    exact ⟨hdisplay, hends, fun candidate h hends => (hmem candidate).mpr ⟨h, hends⟩⟩
  · cases h

theorem resolveLabel_ok {key : String}
    (h : resolveLabel m context target key label = .ok display) :
    ShownFor m target.name key label display :=
  ⟨resolveLabel_named h, resolveLabel_matched h⟩

/-! ### References -/

/-- The name of the field that a reference to the entity means: the one that it declares, or
else the only field of the primary key. -/
def Means (m : Model) (declared : Target) (name : String) : Prop :=
  declared.field = some name ∨ declared.field = none ∧
    ∃ primary, m.primaryKey? declared.entity = some primary ∧ primary.fields = [name]

/-- The reference of the owner is resolved to the target: it points at the declared entity and
at its field `key`. -/
structure ResolvesTo (m : Model) (owner : Entity) (f : Field) (declared : Target) (key : Field)
    (t : Target) : Prop where
  entity : t.entity = declared.entity
  /-- Only copies of keys point at entities without a table. -/
  concrete : ∃ e, m.entity? t.entity = some e ∧ (e.isAbstract = true → f.origin = .inheritedKey)
  owner : f.isMref = true → owner.isAbstract = false
  cascade : t.cascade = declared.cascade
  field : t.field = some key.name
  visible : m.visibleField? t.entity key.name = some key
  type : key.type ≠ .text
  keyed : m.Keyed t.entity key.name
  means : ∃ name, Means m declared name ∧ Text.sameIgnoringCase key.name name = true
  /-- Without labels the field referred to is shown. -/
  unlabelled : declared.labels = [] → t.labels = [key.name]
  labels : declared.labels ≠ [] →
    List.Forall₂ (ShownFor m t.entity key.name) declared.labels t.labels

theorem targetFieldName_ok (he : m.entity? declared.entity = some e)
    (h : targetFieldName m context e declared.field = .ok name) : Means m declared name := by
  unfold targetFieldName at h
  rw [Model.entity?_name he] at h
  split at h
  · next hfield => cases h; exact .inl hfield
  · next hfield =>
    split at h
    · cases h
    · next primary hprimary =>
      split at h
      · next hsingle => cases h; exact .inr ⟨hfield, primary, hprimary, hsingle⟩
      · cases h

theorem targetField_found (h : targetField m context e name = .ok key) :
    m.visibleField? e.name key.name = some key ∧ key.type ≠ .text ∧
      Text.sameIgnoringCase key.name name = true := by
  unfold targetField at h
  dsimp only at h
  split at h
  · cases h
  · next g hg =>
    split at h
    · cases h
    split at h
    · cases h
    · next htext =>
      cases h
      exact ⟨visibleField?_of_mem (mem_of_visibleFieldIgnoringCase? hg), htext,
        same_of_visibleFieldIgnoringCase? hg⟩

theorem shown_ok {a : Aim} {labels : List String} (h : shown m context a = .ok labels) :
    (a.declared.labels = [] → labels = [a.key.name]) ∧
      (a.declared.labels ≠ [] →
        List.Forall₂ (ShownFor m a.entity.name a.key.name) a.declared.labels labels) := by
  unfold Reference.shown at h
  split at h
  · next hempty =>
    cases h
    exact ⟨fun _ => rfl, fun hlabels => absurd (List.isEmpty_iff.mp hempty) hlabels⟩
  · next hlabels =>
    refine ⟨fun hempty => absurd (List.isEmpty_iff.mpr hempty) hlabels, fun _ => ?_⟩
    exact (Except.mapM_ok h).imp fun _ _ hlabel => resolveLabel_ok hlabel

/-- A reference that is resolved points at the entity that it declares, which exists and has a
table unless the field is the copy of a key; it refers to a visible field that is in a key and
not of type text, namely the one that it means; and every label is shown as it should be. -/
theorem resolve_sound (h : resolve m owner f = .ok t) :
    ∃ declared key, f.target? = some declared ∧ ResolvesTo m owner f declared key t := by
  rw [resolve_eq] at h
  obtain ⟨a, haim, h⟩ := Except.bind_ok h
  obtain ⟨labels, hlabels, h⟩ := Except.bind_ok h
  cases h
  obtain ⟨hdeclared, howner, he, hconcrete, name, hname, hkey⟩ := aim_ok_iff.mp haim
  have hentity := Model.entity?_name he
  obtain ⟨hvisible, htype, hsame⟩ := targetField_found hkey
  obtain ⟨hunlabelled, hlabelled⟩ := shown_ok hlabels
  refine ⟨a.declared, a.key, hdeclared, ?_⟩
  exact {
    entity := hentity
    concrete := ⟨a.entity, Model.entity?_self he, by simpa using hconcrete⟩
    owner := fun hmref => by simpa [hmref] using howner
    cascade := rfl
    field := rfl
    visible := hvisible
    type := htype
    keyed := (targetField_ok hkey).2
    means := ⟨name, targetFieldName_ok he hname, hsame⟩
    unlabelled := hunlabelled
    labels := hlabelled }

/-- A pet that is shown by labels of every kind: the end of a candidate, a path, a field and a
candidate, the first three in other letters. -/
def patient : Field :=
  .named "patient" (.xref {
    entity := "Pet", labels := ["NAME", "person.ID", "OWNER", "owner_name"] })

theorem patient_resolved : ∃ t declared key,
    resolve (clinic [person, pet ["name"], visit "owner_name"]) (visit "owner_name") patient =
      .ok t ∧
    patient.target? = some declared ∧
    ResolvesTo (clinic [person, pet ["name"], visit "owner_name"]) (visit "owner_name") patient
      declared key t ∧
    t.labels = ["owner_name", "Person.id", "owner", "owner_name"] := by
  have h : resolve (clinic [person, pet ["name"], visit "owner_name"]) (visit "owner_name")
      patient = .ok {
        entity := "Pet", field := some "owner",
        labels := ["owner_name", "Person.id", "owner", "owner_name"] } := by
    decide +kernel
  obtain ⟨declared, key, hdeclared, hresolved⟩ := resolve_sound h
  exact ⟨_, declared, key, h, hdeclared, hresolved, rfl⟩

end Reference

end EntitySchema
