import EntitySchema.Proofs.KeyIntegrity
import EntitySchema.Proofs.LowerText
import EntitySchema.Proofs.MadeEntities
import EntitySchema.Proofs.Preservation

/-! The field that numbers the records of an entity. When keys are checked, every
entity with a table sees one such field, and a key names it. Passes that come later
copy fields and put them in lower case, so that another field can take its place; but
its name is still in a key in the end, and whatever else the entity inherits that
numbers records has a name over which the entities above it disagree. -/

namespace EntitySchema

open Model (Evolves Encloses)
open Entity (Grows OwnsKeys Relabels SameOutline SameStanding isChange_grows isChange_relabels
  isChange_relocates isChange_sameOutline isChange_sameStanding)

variable {m m' : Model} {added : List String} {a name field other : String} {e : Entity}
  {f f' : Field} {options : Options} {warnings : List Warning}

/-! ### Fields -/

namespace Field

theorem isIdentity_of_outline (h : f'.outline = f.outline) : f'.isIdentity = f.isIdentity := by
  have hint : ∀ t : FieldType, t.outline = .int ↔ t = .int := fun t => by
    cases t <;> simp [FieldType.outline]
  have hauto : f'.auto = f.auto := (congrArg Field.auto h :)
  have htype : f'.type = .int ↔ f.type = .int := by
    have hout : f'.type.outline = f.type.outline := (congrArg Field.type h :)
    rw [← hint, ← hint f.type, hout]
  unfold isIdentity
  simp only [hauto, htype, origin_of_outline h]

theorem IsMoved.isIdentity (h : f.IsMoved) : f.isIdentity = false := by
  obtain ⟨hmref, horigin⟩ := h
  have htype : f.type ≠ .int := fun htype => by
    unfold isMref at hmref
    rw [htype] at hmref
    cases hmref
  simp [Field.isIdentity, htype, horigin]

theorem isIdentity_constraintCopy (h : f.constraintCopy.isIdentity = true) :
    f.isIdentity = true := by
  unfold isIdentity constraintCopy at *
  simp_all

/-- A field that numbers records is not many-to-many. -/
def Proper (f : Field) : Prop := f.isIdentity = true → f.isMref = false

theorem proper_of_origin (h : f.origin = .declared ∨ f.origin = .constraintCopy) : f.Proper := by
  intro hidentity
  have htype : f.type = .int := by
    rcases h with horigin | horigin <;> simp_all [isIdentity]
  unfold isMref
  rw [htype]
  rfl

theorem proper_outline (h : f'.outline = f.outline) (hf : f.Proper) : f'.Proper := by
  unfold Proper
  rw [isIdentity_of_outline h, isMref_of_outline h]
  exact hf

end Field

/-! ### What a lineage offers -/

namespace Model

/-- An entity of the lineage has a field of this name that numbers records, or one that
does not. -/
def Offers (m : Model) (name field : String) (identity : Bool) : Prop :=
  ∃ e ∈ m.lineage name, ∃ f ∈ e.fields, f.name = field ∧ f.isIdentity = identity

instance {identity : Bool} : Decidable (m.Offers name field identity) :=
  inferInstanceAs (Decidable (∃ e ∈ m.lineage name, ∃ f ∈ e.fields, _ ∧ _))

/-- The names of the visible fields that number records. -/
def identities (m : Model) (name : String) : List String :=
  ((m.allFields name).filter (·.isIdentity)).map (·.name)

/-- No field of the lineage that numbers records has a name that a field of the lineage has
that does not. -/
def Uncontested (m : Model) (name : String) : Prop :=
  ∀ e ∈ m.lineage name, ∀ f ∈ e.fields, f.isIdentity = true → ¬m.Offers name f.name false

instance : Decidable (m.Uncontested name) :=
  inferInstanceAs (Decidable (∀ e ∈ m.lineage name, ∀ f ∈ e.fields, _ → ¬_))

/-- A field of this name numbers the records of the entity. Whatever else in its lineage
could do so has a name over which the lineage disagrees. -/
structure Numbered (m : Model) (name field : String) : Prop where
  offered : m.Offers name field true
  others : ∀ other, m.Offers name other true → other = field ∨ m.Offers name other false

theorem offers_of_visible (hf : f ∈ m.allFields a) : m.Offers a f.name f.isIdentity := by
  obtain ⟨e, he, hf⟩ := mem_allFields hf
  exact ⟨e, he, f, hf, rfl, rfl⟩

theorem Offers.sees {identity : Bool} (h : m.Offers a field identity) : m.Sees a field := by
  obtain ⟨e, he, f, hf, hname, -⟩ := h
  exact sees_iff.mpr ⟨e, he, f, hf, hname⟩

theorem Offers.grows {identity : Bool} (h : m.Offers a field identity)
    (hm : Evolves Grows added m m') : m'.Offers a field identity := by
  obtain ⟨e, he, f, hf, hname, hidentity⟩ := h
  obtain ⟨e', he', hgrows⟩ := lineage_grows hm he
  obtain ⟨f', hf', hout⟩ := hgrows.field hf
  exact ⟨e', he', f', hf', (Field.name_of_outline hout).trans hname,
    (Field.isIdentity_of_outline hout).trans hidentity⟩

theorem Uncontested.not_offers (h : m.Uncontested a) (hoffers : m.Offers a field true) :
    ¬m.Offers a field false := by
  obtain ⟨e, he, f, hf, rfl, hidentity⟩ := hoffers
  exact h e he f hf hidentity

theorem mem_identities :
    field ∈ m.identities a ↔ ∃ f ∈ m.allFields a, f.isIdentity = true ∧ f.name = field := by
  simp [identities, and_assoc]

/-- Without disagreement, exactly one field is seen that numbers records. -/
theorem Numbered.identities_eq (h : m.Numbered a field) (hagree : m.Uncontested a) :
    m.identities a = [field] := by
  have hmem : field ∈ m.identities a := by
    obtain ⟨f, hf, rfl⟩ := h.offered.sees
    refine mem_identities.mpr ⟨f, hf, ?_, rfl⟩
    by_contra hnone
    exact hagree.not_offers h.offered (Bool.eq_false_iff.mpr hnone ▸ offers_of_visible hf)
  have honly : ∀ other ∈ m.identities a, other = field := by
    intro other hother
    obtain ⟨f, hf, hidentity, rfl⟩ := mem_identities.mp hother
    have hoffers := hidentity ▸ offers_of_visible hf
    exact (h.others f.name hoffers).resolve_right (hagree.not_offers hoffers)
  have hnodup : (m.identities a).Nodup :=
    (allFields_nodup m a).sublist (List.filter_sublist.map _)
  cases hall : m.identities a with
  | nil => rw [hall] at hmem; cases hmem
  | cons first rest =>
    rw [hall] at honly hnodup
    obtain ⟨rfl, hrest⟩ := List.forall_mem_cons.mp honly
    have hnone : rest = [] := List.eq_nil_iff_forall_not_mem.mpr fun other hother =>
      (List.nodup_cons.mp hnodup).1 (hrest other hother ▸ hother)
    rw [hnone]

end Model

/-! ### When keys are checked -/

namespace Keys

/-- An entity with a table sees one field that numbers records, and a key names it. -/
theorem check_identities (hm : m.Layered) (h : check m = .ok ()) (he : m.entity? a = some e)
    (hconcrete : e.isAbstract = false) : ∃ field, m.identities a = [field] ∧ m.Keyed a field := by
  obtain rfl := Model.entity?_name he
  obtain ⟨_, -, hcheck⟩ := Except.bind_ok (Except.forM_ok h e (Model.entity?_mem he))
  obtain ⟨_, -, hcheck⟩ := Except.bind_ok hcheck
  obtain ⟨_, hidentity, -⟩ := Except.bind_ok hcheck
  unfold checkIdentity at hidentity
  split at hidentity
  · next field hfield =>
    refine ⟨field, hfield, ?_⟩
    have hmem : field ∈ m.identities e.name := by simp [Model.identities, hfield]
    obtain ⟨f, hf, hf', rfl⟩ := Model.mem_identities.mp hmem
    obtain ⟨owner, howner, hown⟩ := Model.mem_allFields hf
    obtain ⟨howner, hinherits⟩ := Model.mem_lineage.mp howner
    obtain ⟨_, -, hcheck⟩ := Except.bind_ok (Except.forM_ok h owner (Model.entity?_mem howner))
    obtain ⟨_, hkeys, -⟩ := Except.bind_ok hcheck
    have hkey := Except.forM_ok hkeys f (List.mem_filter.mpr ⟨hown, hf'⟩)
    split at hkey
    · next hany =>
      obtain ⟨key, hkey, hfield⟩ := List.any_eq_true.mp hany
      exact Model.Keyed.inherits hm hinherits ⟨key, hkey, by simpa using hfield⟩
    · cases hkey
  · rw [hconcrete] at hidentity
    cases hidentity

/-- Labels make no difference to what is seen. -/
theorem assignLabels_visible_same (hclosed : m.Closed) (h : assignLabels m = .ok m')
    (ha : a ∈ m.entityNames) : m'.allFields a = m.allFields a ∧ m'.allKeys a = m.allKeys a := by
  have hlineage := Model.lineage_change isChange_relabels (fun _ _ h => h.sameStanding) hclosed
    (assignLabels_relabels h) ha
  unfold Model.allFields Model.allKeys
  rw [flatMap_eq_of_forall₂ (R := Relabels) (fun _ _ h => h.fields) hlineage,
    flatMap_eq_of_forall₂ (R := Relabels) (fun _ _ h => (congrArg Entity.keys h :)) hlineage]
  exact ⟨rfl, rfl⟩

end Keys

/-! ### When fields move -/

namespace Link

variable {dialect : Dialect} {u : Unit}

theorem relocate_keyed (h : Ends (relocate dialect) m u m') (hkeyed : m.Keyed a field) :
    m'.Keyed a field := by
  obtain ⟨e, he, key, hkey, hfield⟩ := Model.keyed_iff.mp hkeyed
  obtain ⟨e', hlineage, -, hsame⟩ := relocate_lineage h he
  exact Model.keyed_iff.mpr ⟨e', hlineage, key, hsame.keys ▸ hkey, hfield⟩

/-- The field that numbers records stays, and those that were not seen for another field
are still there with that other, or with one that moved. -/
theorem relocate_numbered (hm : m.Layered) (hfields : m.AllFields Field.Proper)
    (h : Ends (relocate dialect) m u m') (he : m.entity? a = some e)
    (hconcrete : e.isAbstract = false) (hseen : m.identities a = [field]) :
    m'.Numbered a field := by
  constructor
  · obtain ⟨f, hf, hidentity, rfl⟩ := Model.mem_identities.mp (hseen ▸ List.mem_singleton_self _)
    obtain ⟨owner, howner, hf⟩ := Model.mem_allFields hf
    have hmref := hfields owner (Model.entity?_mem (Model.mem_lineage.mp howner).1) f hf hidentity
    obtain ⟨owner', howner', hf⟩ := relocate_keeps h howner hf fun _ => hmref
    exact ⟨owner', howner', f, hf, rfl, hidentity⟩
  · rintro _ ⟨x', hx', f, hf, rfl, hidentity⟩
    obtain ⟨x, hx, -, hsame⟩ := Model.mem_lineage_change_back isChange_relocates
      (fun _ _ h => h.toSameStanding) (relocate_relocates h) hx'
    have hf := (hsame.fields f hf).resolve_right fun hmoved => by
      rw [hmoved.isIdentity] at hidentity
      cases hidentity
    obtain ⟨g, hg, hname⟩ := Model.sees_iff.mpr ⟨x, hx, f, hf, rfl⟩
    cases hnumbers : g.isIdentity with
    | true =>
      have hmem := Model.mem_identities.mpr ⟨g, hg, hnumbers, hname⟩
      rw [hseen] at hmem
      exact .inl (List.mem_singleton.mp hmem)
    | false =>
      obtain ⟨y, hy, g', hg', hname', hshown⟩ := relocate_shown hm h he hconcrete hg
      refine .inr ⟨y, hy, g', hg', hname'.trans hname, ?_⟩
      exact hshown.elim (fun hsame => hsame ▸ hnumbers) (·.isIdentity)

end Link

/-! ### From keys to references -/

namespace Pass

/-- Every entity with a table is numbered by a field that a key names. -/
theorem completeKeys_numbered (hnodup : m.entityNames.Nodup) (hfields : m.AllFields Field.Proper)
    (h : Ends (completeKeys options) m warnings m') (he : m.entity? a = some e)
    (hconcrete : e.isAbstract = false) : ∃ field, m'.Numbered a field ∧ m'.Keyed a field := by
  obtain ⟨m₁, m₂, m₃, hkeys, hdisc, hcheck, hlabels, hrelocate⟩ := completeKeys_steps h
  obtain ⟨hhierarchy, hgains⟩ := Hierarchy.propagateKeys_ok hkeys
  have hstanding₁ : Evolves SameStanding [] m m₁ := hgains.mono fun _ _ h => h.sameStanding
  have hnodup₁ := hstanding₁.nodup isChange_sameStanding hnodup
  have hstanding := hstanding₁.trans_nil isChange_sameStanding (hdisc.standing hnodup₁)
  have hlayered := (Model.layered_of_check hhierarchy).standing hstanding
  have hclosed := (Model.closed_of_check hhierarchy).standing hstanding
  have hrelabels := Keys.assignLabels_relabels hlabels
  have hcopy : Hierarchy.CopiesKeep Field.Proper := fun _ _ _ _ _ => rfl
  have hfields₂ := hdisc.fields hnodup₁ (fun _ _ _ => rfl)
    (Hierarchy.propagateKeys_fields hcopy hfields hkeys)
  have hfields₃ : m₃.AllFields Field.Proper := Model.All.evolves hfields₂ hrelabels
    fun e e' h (he : ∀ f ∈ e.fields, f.Proper) => by rwa [h.fields]
  obtain ⟨e₂, he₂, hsame₂⟩ := hstanding.entity? isChange_sameStanding he
  obtain ⟨e₃, he₃, hsame₃⟩ := hrelabels.entity? isChange_relabels he₂
  have hconcrete₂ := hsame₂.isAbstract.trans hconcrete
  obtain ⟨field, hseen, hkeyed⟩ := Keys.check_identities hlayered hcheck he₂ hconcrete₂
  obtain ⟨hallFields, hallKeys⟩ := Keys.assignLabels_visible_same hclosed hlabels
    (Model.mem_entityNames.mpr ⟨e₂, he₂⟩)
  refine ⟨field, ?_, ?_⟩
  · refine Link.relocate_numbered
      (hlayered.standing (hrelabels.mono fun _ _ h => h.sameStanding)) hfields₃ hrelocate he₃
      (hsame₃.sameStanding.isAbstract.trans hconcrete₂) ?_
    unfold Model.identities at hseen ⊢
    rwa [hallFields]
  · refine Link.relocate_keyed hrelocate ?_
    unfold Model.Keyed at hkeyed ⊢
    rwa [hallKeys]

theorem completeReferences_lineage (h : Ends completeReferences m () m') (he : e ∈ m.lineage a) :
    ∃ e' ∈ m'.lineage a, e.Lowers e' := by
  obtain ⟨e', hlineage, he', -⟩ := Model.mem_lineage_change isChange_sameStanding (fun _ _ => id)
    (completeReferences_standing h) he
  obtain ⟨e'', he'', hlowers⟩ := completeReferences_entity? h (Model.mem_lineage.mp he).1
  rw [he'] at he''
  cases he''
  exact ⟨e', hlineage, hlowers⟩

theorem completeReferences_lineage_back {e' : Entity} (h : Ends completeReferences m () m')
    (he' : e' ∈ m'.lineage a) : ∃ e ∈ m.lineage a, e.Lowers e' := by
  obtain ⟨e, hlineage, he, -⟩ := Model.mem_lineage_change_back isChange_sameStanding
    (fun _ _ => id) (completeReferences_standing h) he'
  obtain ⟨e'', he'', hlowers⟩ := completeReferences_entity? h he
  rw [(Model.mem_lineage.mp he').1] at he''
  cases he''
  exact ⟨e, hlineage, hlowers⟩

theorem completeReferences_offers (h : Ends completeReferences m () m') {identity : Bool} :
    m'.Offers a other identity ↔ ∃ field, m.Offers a field identity ∧ other = Text.lower field := by
  constructor
  · rintro ⟨e', he', f', hf', rfl, hidentity⟩
    obtain ⟨e, he, hlowers⟩ := completeReferences_lineage_back h he'
    obtain ⟨f, hf, hout⟩ := List.mem_map.mp (hlowers.fields ▸ List.mem_map_of_mem hf')
    refine ⟨f.name, ⟨e, he, f, hf, rfl, ?_⟩, Field.name_of_outline hout.symm⟩
    exact (Field.isIdentity_of_outline hout).trans hidentity
  · rintro ⟨_, ⟨e, he, f, hf, rfl, hidentity⟩, rfl⟩
    obtain ⟨e', he', hlowers⟩ := completeReferences_lineage h he
    obtain ⟨f', hf', hout⟩ := List.mem_map.mp (hlowers.fields.symm ▸ List.mem_map_of_mem hf)
    refine ⟨e', he', f', hf', Field.name_of_outline hout, ?_⟩
    exact (Field.isIdentity_of_outline hout).trans hidentity

theorem completeReferences_numbered (h : Ends completeReferences m () m')
    (hm : m.Numbered a field) : m'.Numbered a (Text.lower field) := by
  refine ⟨(completeReferences_offers h).mpr ⟨field, hm.offered, rfl⟩, fun other hother => ?_⟩
  obtain ⟨declared, hdeclared, rfl⟩ := (completeReferences_offers h).mp hother
  rcases hm.others declared hdeclared with rfl | hcontested
  · exact .inl rfl
  · exact .inr ((completeReferences_offers h).mpr ⟨declared, hcontested, rfl⟩)

theorem completeReferences_lowerCase (h : Ends completeReferences m () m') :
    m'.AllFields fun f => Text.lower f.name = f.name := by
  have hm : m.AllFields fun _ => True := fun _ _ _ _ => trivial
  refine completeReferences_fields (fun _ _ _ => id) (fun f f' hout _ => ?_) hm h
  rw [Field.name_of_outline hout]
  exact Text.lower_lower f.name

/-- A key still names the field, in lower case or as it was. -/
theorem completeReferences_keyed (h : Ends completeReferences m () m') (hm : m.Keyed a field) :
    ∃ name, m'.Keyed a name ∧ Text.lower name = Text.lower field := by
  obtain ⟨e, he, key, hkey, hfield⟩ := Model.keyed_iff.mp hm
  obtain ⟨e', he', hlowers⟩ := completeReferences_lineage h he
  refine ⟨FieldCase.follow e.fields field, Model.keyed_iff.mpr ⟨e', he', ?_⟩,
    FieldCase.lower_follow e.fields field⟩
  exact ⟨_, hlowers.keys ▸ List.mem_map_of_mem hkey, List.mem_map_of_mem hfield⟩

end Pass

/-! ### Up to the end -/

namespace Pass

/-- Once the names of all fields are in lower case, an entity stays numbered by the same
field, and the fields that it inherits stay in lower case. -/
theorem completeTables_numbered (hordered : m.Ordered)
    (hlower : m.AllFields fun f => Text.lower f.name = f.name) (ha : a ∈ m.entityNames)
    (hm : m.Numbered a field) {m₁ : Model}
    (hlinked : Evolves SameOutline added m m₁) (hgrows : ∃ added, Evolves Grows added m m')
    (h : Ends (completeTables options) m₁ () m') :
    m'.Numbered a field ∧ ∀ e ∈ m'.lineage a, ∀ f ∈ e.fields, Text.lower f.name = f.name := by
  let kind (f : Field) : Prop := Text.lower f.name = f.name ∧
    (f.isIdentity = true → f.name = field ∨ m.Offers a f.name false)
  have houtline : ∀ f f' : Field, f'.outline = f.outline → kind f → kind f' := by
    intro f f' hout hf
    unfold kind
    rw [Field.name_of_outline hout, Field.isIdentity_of_outline hout]
    exact hf
  have hencloses : m.Encloses (m.Inherits a) kind :=
    hordered.layered.encloses hordered.closed hordered.names ha fun e he f hf =>
      ⟨hlower e (Model.entity?_mem (Model.mem_lineage.mp he).1) f hf,
        fun hidentity => hm.others f.name ⟨e, he, f, hf, rfl, hidentity⟩⟩
  obtain ⟨-, hm'⟩ := completeTables_encloses (hencloses.outline houtline hlinked) houtline
    (fun f hf => ⟨hf.1, fun hidentity => hf.2 (Field.isIdentity_constraintCopy hidentity)⟩)
    (fun _ _ _ _ => ⟨Hierarchy.lower_discriminatorName, fun hidentity => by cases hidentity⟩) h
  have hkind : ∀ e ∈ m'.lineage a, ∀ f ∈ e.fields, kind f := fun e he =>
    hm'.lineage (.inl ⟨a, .refl, .refl⟩) he
  obtain ⟨_, hgrows⟩ := hgrows
  refine ⟨⟨hm.offered.grows hgrows, ?_⟩, fun e he f hf => (hkind e he f hf).1⟩
  rintro _ ⟨e, he, f, hf, rfl, hidentity⟩
  exact ((hkind e he f hf).2 hidentity).imp_right (·.grows hgrows)

end Pass

/-- The entity of a link is numbered by its key. -/
theorem Link.MadeAs.numbers {j : Entity} (h : MadeAs name j) (hsame : SameOutline j e) :
    (∃ f ∈ e.fields, f.name = keyName ∧ f.isIdentity = true) ∧
      (∀ f ∈ e.fields, f.isIdentity = true → f.name = keyName) ∧
      ∃ key ∈ e.keys, keyName ∈ key.fields := by
  obtain ⟨_, _, owner, _, _, _, _, hmake, hframe⟩ := h
  obtain ⟨columns, hcolumns, rfl⟩ := make_eq hmake
  have hout := isChange_sameOutline.trans hframe.sameBearing.sameOutline hsame
  refine ⟨?_, fun f hf hidentity => ?_, ?_⟩
  · obtain ⟨f, hf, hkey⟩ := List.mem_map.mp (hout.1.symm ▸ List.mem_map_of_mem List.mem_cons_self)
    exact ⟨f, hf, Field.name_of_outline hkey, Field.isIdentity_of_outline hkey⟩
  · obtain ⟨g, hg, hsame⟩ := List.mem_map.mp (hout.1 ▸ List.mem_map_of_mem hf)
    rw [← Field.name_of_outline hsame]
    rw [← Field.isIdentity_of_outline hsame] at hidentity
    rcases List.mem_cons.mp hg with rfl | hg
    · rfl
    · obtain ⟨_, _, rfl⟩ := hcolumns g hg
      cases hidentity
  · refine ⟨{ fields := [keyName] }, ?_, List.mem_singleton_self _⟩
    rw [hout.keys]
    exact List.mem_cons_self

namespace Pass

/-- What a link has made, the last passes leave numbered by its key. -/
theorem completeTables_made {j : Entity} (hnodup : m.entityNames.Nodup)
    (hj : Link.MadeAs name j) (hsame : SameOutline j e) (he : m.entity? name = some e)
    (hroot : ¬m.isRoot name = true) (h : Ends (completeTables options) m () m') :
    m'.Numbered name Link.keyName ∧ m'.Keyed name Link.keyName := by
  obtain ⟨⟨f, hf, hname, hidentity⟩, honly, key, hkey, hfield⟩ := hj.numbers hsame
  obtain ⟨_, hgrows⟩ := completeTables_grows hnodup h
  have hself : e ∈ m.lineage name := by
    obtain rfl := Model.entity?_name he
    exact Model.mem_lineage.mpr ⟨he, e.name, .refl, .refl⟩
  have houtline : ∀ f f' : Field, f'.outline = f.outline →
      (f.isIdentity = true → f.name = Link.keyName) →
      f'.isIdentity = true → f'.name = Link.keyName := by
    intro f f' hout hf
    rw [Field.name_of_outline hout, Field.isIdentity_of_outline hout]
    exact hf
  have hm' := completeTables_alone hnodup hj hsame he hroot houtline
    (fun f hf hidentity => hf (Field.isIdentity_constraintCopy hidentity)) honly h
  have hoffered : m.Offers name Link.keyName true := ⟨e, hself, f, hf, hname, hidentity⟩
  have hkeyed : m.Keyed name Link.keyName := Model.keyed_iff.mpr ⟨e, hself, key, hkey, hfield⟩
  refine ⟨⟨hoffered.grows hgrows, ?_⟩, hkeyed.grows hgrows⟩
  rintro _ ⟨e', he', f', hf', rfl, hidentity'⟩
  exact .inl (hm'.lineage (.inl rfl) he' f' hf' hidentity')

/-- When references are completed, every entity with a table is numbered by a field, and a
key names it in lower case or as it was. -/
theorem completeReferences_numbered_keyed {m₁ m₂ : Model} (hm : m.AsRead)
    (hnames : Ends (completeNames options.dialect) m () m₁)
    (hkeys : Ends (completeKeys options) m₁ warnings m₂)
    (hreferences : Ends completeReferences m₂ () m') (he : m'.entity? a = some e)
    (hconcrete : e.isAbstract = false) :
    ∃ name, m'.Numbered a (Text.lower name) ∧ m'.Keyed a name := by
  have hnodup₁ := (completeNames_standing hnames).nodup isChange_sameStanding hm.names
  have hstanding := (completeKeys_standing hnodup₁ hkeys).trans_nil isChange_sameStanding
    (completeReferences_standing hreferences)
  obtain ⟨e₁, he₁, hsame⟩ := hstanding.entity?_back isChange_sameStanding he (by simp)
  have hproper : m₁.AllFields Field.Proper :=
    Model.AllFields.outline (fun _ _ => Field.proper_outline)
      (fun e he f hf => Field.proper_of_origin ((hm.entities e he).origins f hf))
      (Link.assignNames_outline (completeNames_steps hnames))
  obtain ⟨field, hnumbered, hkeyed⟩ :=
    completeKeys_numbered hnodup₁ hproper hkeys he₁ (hsame.isAbstract.symm.trans hconcrete)
  obtain ⟨name, hkeyed, hname⟩ := completeReferences_keyed hreferences hkeyed
  exact ⟨name, hname ▸ completeReferences_numbered hreferences hnumbered, hkeyed⟩

/-- In a completed model every entity with a table is numbered by a field that a key
names. -/
theorem complete_numbered (hm : m.AsRead) (h : Ends (complete options) m warnings m')
    (he : e ∈ m'.entities) (hconcrete : e.isAbstract = false) :
    ∃ field, m'.Numbered e.name field ∧ m'.Keyed e.name field := by
  obtain ⟨hsound, howns⟩ :=
    complete_sound hm.sound h
  obtain ⟨m₁, m₂, m₃, m₄, hnames, hkeys, hreferences, hlinks, htables⟩ := complete_steps h
  have hordered := completeReferences_ordered hm.distinct hnames hkeys hreferences
  obtain ⟨made, hlinked, hroots, hmade⟩ := completeLinks_made hordered hlinks
  have hnodup₄ := hlinked.nodup isChange_sameOutline hordered.names
  have hold : e.name ∈ m₄.entityNames := by
    have hfresh := (completeTables_extension hnodup₄ htables).fresh e he
    rw [(Reference.propagateLabels_bearing m₄).entityNames Entity.isChange_sameBearing,
      List.append_nil, hconcrete] at hfresh
    exact hfresh.resolve_right (by simp)
  rw [hlinked.entityNames isChange_sameOutline, List.mem_append] at hold
  rcases hold with hold | hlink
  · obtain ⟨added, hgrows⟩ := completeTables_grows hnodup₄ htables
    have hgrows := (hlinked.mono fun _ _ h => h.grows).trans isChange_grows hgrows
    obtain ⟨e₃, he₃⟩ := Model.mem_entityNames.mp hold
    have hconcrete₃ : e₃.isAbstract = false := by
      obtain ⟨e', he', hgrown⟩ := hgrows.entity? isChange_grows he₃
      rw [Model.entity?_of_mem hsound.names he] at he'
      cases he'
      rw [← hgrown.isAbstract, hconcrete]
    obtain ⟨name, hnumbered, hkeyed⟩ :=
      completeReferences_numbered_keyed hm hnames hkeys hreferences he₃ hconcrete₃
    obtain ⟨hnumbered, hlower⟩ := completeTables_numbered hordered
      (completeReferences_lowerCase hreferences) hold hnumbered hlinked ⟨_, hgrows⟩ htables
    have hkeyed := hkeyed.grows hgrows
    refine ⟨_, hnumbered, ?_⟩
    -- keys are over own fields, so that the name in the key is in lower case as well
    obtain ⟨x, hx, key, hkey, hmem⟩ := Model.keyed_iff.mp hkeyed
    have hown := howns x (Model.entity?_mem (Model.mem_lineage.mp hx).1) key hkey name hmem
    obtain ⟨f, hf, rfl⟩ : ∃ f ∈ x.fields, f.name = name := by simpa [Entity.hasField] using hown
    rwa [hlower x hx f hf]
  · obtain ⟨e₄, he₄, ⟨j, hj, hsame⟩, -⟩ := hmade e.name hlink
    exact ⟨_, completeTables_made hnodup₄ hj hsame he₄
      (fun hroot => hlinked.fresh hlink (hroots _ hroot)) htables⟩

end Pass

/-! ### Compiled models -/

theorem Model.Numbered.of_eq (heq : m'.entities = m.entities) (h : m.Numbered a field) :
    m'.Numbered a field :=
  have hm : Evolves Grows [] m m' := .of_eq isChange_grows heq
  ⟨h.offered.grows hm, fun other hother =>
    (h.others other (hother.grows (.of_eq isChange_grows heq.symm))).imp_right (·.grows hm)⟩

/-- After a compilation, every entity with a table is numbered by a field that a key names;
it sees exactly this one field that numbers records, unless its lineage has fields of one
name of which some number records and some do not. -/
theorem compiled_numbered {library : Screens.Library} {schemas : List String}
    {screens : Option String} {c : Compiled}
    (h : Compilation.compile options library schemas screens = .ok c)
    (he : e ∈ c.model.entities) (hconcrete : e.isAbstract = false) :
    ∃ field, c.model.Numbered e.name field ∧ c.model.Keyed e.name field ∧
      (c.model.Uncontested e.name → c.model.identities e.name = [field]) := by
  obtain ⟨m, m', warnings, hread, hcomplete, heq, -⟩ := Compilation.compile_asRead h
  obtain ⟨field, hnumbered, hkeyed⟩ := Pass.complete_numbered hread hcomplete (heq ▸ he) hconcrete
  have hnumbered := hnumbered.of_eq heq
  exact ⟨field, hnumbered, hkeyed.grows (.of_eq isChange_grows heq), hnumbered.identities_eq⟩

/-- Persons are numbered as members of a club are. -/
def persons : String :=
  "<m><entity name='Member' abstract='true'><field name='id' type='autoid'/></entity>" ++
  "<entity name='Person' implements='Member'/></m>"

theorem persons_numbered : ∃ c, Compilation.compile {} Screens.noLibrary [persons] none = .ok c ∧
    ∃ e ∈ c.model.entities, e.name = "Person" ∧ c.model.Uncontested e.name ∧
      ∃ field, c.model.Keyed e.name field ∧ c.model.identities e.name = [field] := by
  have hrun : (Compilation.compile {} Screens.noLibrary [persons] none).toOption.any
      (fun c => ∃ e ∈ c.model.entities, e.name = "Person" ∧ e.isAbstract = false ∧
        c.model.Uncontested e.name) = true := by decide +kernel
  obtain ⟨c, hc, hperson⟩ := Except.exists_ok_and hrun
  obtain ⟨e, he, hname, hconcrete, hagree⟩ := of_decide_eq_true hperson
  obtain ⟨field, -, hkeyed, hseen⟩ := compiled_numbered hc he hconcrete
  exact ⟨c, hc, e, he, hname, hagree, field, hkeyed, hseen hagree⟩

/-- Books have a number as items; an identifier of their own takes its place, once both
are in lower case. -/
def items : String :=
  "<m><entity name='Item' abstract='true'><field name='code' type='string' unique='true'/>" ++
  "<field name='ID' type='autoid'/></entity><entity name='Book' implements='Item'>" ++
  "<field name='id' type='string'/></entity></m>"

theorem compiled_not_all_numbered_once : ¬∀ options library schemas screens c,
    Compilation.compile options library schemas screens = .ok c →
    ∀ e ∈ c.model.entities, e.isAbstract = false →
      ∃ field, c.model.identities e.name = [field] ∧ c.model.Keyed e.name field := by
  intro hall
  have hrun : (Compilation.compile {} Screens.noLibrary [items] none).toOption.any
      (fun c => ∃ e ∈ c.model.entities, e.isAbstract = false ∧ c.model.identities e.name = []) =
      true := by decide +kernel
  obtain ⟨c, hc, hbook⟩ := Except.exists_ok_and hrun
  obtain ⟨e, he, hconcrete, hnone⟩ := of_decide_eq_true hbook
  obtain ⟨field, hone, -⟩ := hall _ _ _ _ c hc e he hconcrete
  rw [hnone] at hone
  cases hone

end EntitySchema
