import EntitySchema.Proofs.Documents
import EntitySchema.Proofs.Headings
import EntitySchema.Proofs.LinkNames
import EntitySchema.Proofs.Numbering
import EntitySchema.Proofs.OwnFields
import EntitySchema.Proofs.TwoSides

/-! Columns that links declare. A field may name the column of its link entity that is for
its target. When the fields of that entity are put in lower case, links are left as they are;
so the column is found again if its name is in lower case already, and if not, the first
column for the same target stands in for it. -/

namespace EntitySchema

open Model (Evolves)
open Entity (Prolongs SameBy SameOutline SameUnlinked isChange_prolongs isChange_sameBearing
  isChange_sameOutline isChange_sameStanding isChange_sameUnlinked)

variable {m m' : Model} {options : Options} {dialect : Dialect} {warnings : List Warning}
  {e e' j : Entity} {f f' : Field} {owner name column entity : String} {link : Link}

/-! ### Fields that refer to an entity by a link -/

namespace Field

/-- The field refers to the entity of this name by the link. -/
def Leads (f : Field) (entity : String) (link : Link) : Prop :=
  ∃ target, f.type = .mref target link ∧ target.entity = entity

/-- The field declares the link entity, and its column for the target. It may leave it to
that column what the target is. -/
def Declares (f : Field) (entity name column : String) : Prop :=
  (f.targetEntity? = some entity ∨ f.targetEntity? = some "") ∧
    f.linkName? = some name ∧ f.type.link?.bind (·.remoteId) = some column

instance : Decidable (f.Declares entity name column) :=
  inferInstanceAs (Decidable (_ ∧ _))

theorem Declares.mref (h : f.Declares entity name column) : ∃ target link,
    f.type = .mref target link ∧ (target.entity = entity ∨ target.entity = "") ∧
    link.name = some name ∧ link.remoteId = some column := by
  obtain ⟨htarget, hname, hremote⟩ := h
  rcases f with ⟨_, _, type⟩
  cases type with
  | mref target link =>
    exact ⟨target, link, rfl, htarget.imp Option.some.inj Option.some.inj, hname, hremote⟩
  | _ => cases hname

theorem Leads.declares (h : f.Leads entity link) (hname : link.name = some name)
    (hremote : link.remoteId = some column) : f.Declares entity name column := by
  obtain ⟨target, htype, rfl⟩ := h
  rcases f with ⟨_, _, type⟩
  cases htype
  exact ⟨.inl rfl, hname, hremote⟩

theorem leads_iff : f.Leads entity link ↔ f.type.heading = .mref { entity } link := by
  rcases f with ⟨_, _, type⟩
  cases type <;> simp [Leads, FieldType.heading, and_comm]

theorem Leads.of_heading (h : f.Leads entity link) (hheading : f'.heading = f.heading) :
    f'.Leads entity link := by
  rw [leads_iff] at h ⊢
  exact (congrArg Field.type hheading :).trans h

end Field

/-- The field referred to by a column of the entity is found under the column's name. -/
theorem Entity.HasColumn.target? (h : e.HasColumn column entity) (he : e.DistinctFields) :
    (e.field? column).bind (·.targetEntity?) = some entity := by
  obtain ⟨f, hf, hname, -, htarget⟩ := h
  rw [(Entity.field?_iff he).mpr ⟨hf, hname⟩, Option.bind_some, htarget]

theorem Entity.SameUnlinked.hasColumn (h : SameUnlinked e e') (he : e.HasColumn column entity) :
    e'.HasColumn column entity := by
  obtain ⟨f, hf, hname, hmref, htarget⟩ := he
  obtain ⟨f', hf', hsame⟩ := exists_of_forall₂_left (SameBy.forall₂ h) hf
  obtain rfl := Field.eq_of_unlinked hsame hmref
  exact ⟨f', hf', hname, hmref, htarget⟩

/-! ### When links are named -/

namespace Link

variable {taken taken' : List String} {place other : Nat × Nat}

/-- What the field declares is kept, and its target is the declared one, or that of the column. -/
theorem complete_declared {owner field chosen : String} {target target' : Target} {link' : Link}
    (h : complete m dialect taken owner field target link = .ok (target', link', chosen))
    (hj : m.entity? name = some j)
    (hcolumn : (j.field? column).bind (·.targetEntity?) = some entity)
    (htarget : target.entity = entity ∨ target.entity = "") (hname : link.name = some name)
    (hremote : link.remoteId = some column) :
    target'.entity = entity ∧ link'.name = some name ∧ link'.remoteId = some column := by
  obtain ⟨_, _, hnamed, -, htarget', rfl, -, rfl⟩ := complete_cases h
  obtain rfl : chosen = name := by
    rcases linkName_ok hnamed with hsame | ⟨hnone, -⟩
    · exact Option.some.inj (hsame.symm.trans hname)
    · rw [hname] at hnone
      cases hnone
  have hinfer : inferTarget? m owner field chosen link.remoteId =
      (some entity).filter (· ≠ "") := by
    rw [inferTarget?, hj, hremote]
    exact congrArg (Option.filter (· ≠ "")) hcolumn
  refine ⟨?_, rfl, by rw [hremote]; rfl⟩
  rcases htarget' with ⟨hdeclared, hsame⟩ | ⟨-, hfound⟩
  · exact hsame.trans (htarget.resolve_right hdeclared)
  · exact (Option.some.inj (Option.filter_eq_some_iff.mp (hinfer.symm.trans hfound)).1).symm

/-- The field at the place declares its link, whose entity has the column for the target. -/
structure Awaits (m : Model) (place : Nat × Nat) (entity name column : String) : Prop where
  distinct : m.DistinctFields
  found : ∃ j, m.entity? name = some j ∧ j.HasColumn column entity
  field : ∃ f, fieldAt? m place = some f ∧ f.Declares entity name column

/-- The field at the place refers to its target by the link that it declares. -/
def LedAt (m : Model) (place : Nat × Nat) (entity name column : String) : Prop :=
  ∃ f link, fieldAt? m place = some f ∧ f.Leads entity link ∧ link.name = some name ∧
    link.remoteId = some column

/-- In its own round the field gets to refer to its target. -/
theorem Completes.led (h : Completes dialect taken place m taken' m')
    (hm : Awaits m place entity name column) : LedAt m' place entity name column := by
  obtain ⟨f, hf, hdeclares⟩ := hm.field
  obtain ⟨target, link, htype, htarget, hname, hremote⟩ := hdeclares.mref
  obtain ⟨j, hj, hcolumn⟩ := hm.found
  cases h with
  | @filled _ g target₁ target' link₁ link' _ _ hplace htype₁ hcomplete =>
    obtain rfl : f = g := Option.some.inj (hf.symm.trans hplace)
    obtain ⟨rfl, rfl⟩ : target = target₁ ∧ link = link₁ :=
      FieldType.mref.inj (htype.symm.trans htype₁)
    obtain ⟨htarget', hname', hremote'⟩ := complete_declared hcomplete hj
      (hcolumn.target? (hm.distinct j (Model.entity?_mem hj))) htarget hname hremote
    exact ⟨_, link', fieldAt?_changeType_self hf, ⟨target', rfl, htarget'⟩, hname', hremote'⟩
  | skipped hnone =>
    have hmref := hnone f hf
    rw [Field.isMref_of_type htype] at hmref
    cases hmref

theorem LedAt.awaits (h : LedAt m place entity name column) (hdistinct : m.DistinctFields)
    (hcolumn : ∃ j, m.entity? name = some j ∧ j.HasColumn column entity) :
    Awaits m place entity name column := by
  obtain ⟨f, link, hf, hleads, hname, hremote⟩ := h
  exact ⟨hdistinct, hcolumn, f, hf, hleads.declares hname hremote⟩

/-- No round takes away what the field waits for, its own included. -/
theorem Completes.awaits (h : Completes dialect taken other m taken' m')
    (hm : Awaits m place entity name column) : Awaits m' place entity name column := by
  have hsame := h.unlinked
  have hdistinct := hm.distinct.evolves hsame fun _ _ h => h.sameOutline.distinct
  have hcolumn : ∃ j, m'.entity? name = some j ∧ j.HasColumn column entity := by
    obtain ⟨j, hj, hcolumn⟩ := hm.found
    obtain ⟨j', hj', hsame⟩ := hsame.entity? isChange_sameUnlinked hj
    exact ⟨j', hj', hsame.hasColumn hcolumn⟩
  by_cases hplace : other = place
  · subst hplace
    exact (h.led hm).awaits hdistinct hcolumn
  · exact ⟨hdistinct, hcolumn, h.elsewhere (Ne.symm hplace) ▸ hm.field⟩

/-- A field that declares its link, with a column for the target, refers to the target by
that link once links are named. -/
theorem assignNames_led (h : Ends (assignNames dialect) m () m')
    (hm : Awaits m place entity name column) : LedAt m' place entity name column := by
  obtain ⟨f, hf, hdeclares⟩ := hm.field
  obtain ⟨target, link, htype, -⟩ := hdeclares.mref
  have hlink : linkAt? m place = some link := by
    rw [linkAt?_eq, hf, Option.bind_some, htype]
    rfl
  obtain ⟨_, _, taken₁, m₁, taken₂, m₂, taken₃, -, -, -, hfirst, hround, hrest⟩ :=
    assignNames_rounds h (mem_places hlink)
  have hm₁ : Awaits m₁ place entity name column :=
    hfirst.foldlM_keeps (fun _ m => Awaits m place entity name column)
      (fun _ _ _ _ _ _ h hm => (completeAt_cases h).awaits hm) hm
  have hround := completeAt_cases hround
  -- from its own round on, the field refers to its target
  refine (hrest.foldlM_keeps (fun _ m => Awaits m place entity name column ∧
    LedAt m place entity name column) (fun other _ _ _ m₂ m' h ⟨hm, hled⟩ => ?_)
    ⟨hround.awaits hm₁, hround.led hm₁⟩).2
  have h := completeAt_cases h
  refine ⟨h.awaits hm, ?_⟩
  by_cases hplace : other = place
  · subst hplace
    exact h.led hm
  · obtain ⟨f, link, hf, hleads⟩ := hled
    exact ⟨f, link, (h.elsewhere (Ne.symm hplace)).trans hf, hleads⟩

/-! ### When fields are backed -/

theorem remoteColumn?_declared (h : column ∈ columnsFor j entity) :
    remoteColumn? j entity (some column) = some column := by
  obtain ⟨found, hfound⟩ : ∃ found, (columnsFor j entity).find? (some · = some column) =
      some found := Option.isSome_iff_exists.mp (List.find?_isSome.mpr ⟨column, h, by simp⟩)
  obtain rfl : found = column := by simpa using List.find?_some hfound
  rw [remoteColumn?, hfound, Option.some_or]

theorem remoteColumn?_undeclared (h : column ∉ columnsFor j entity) :
    remoteColumn? j entity (some column) = (columnsFor j entity).head? := by
  have hnone : (columnsFor j entity).find? (some · = some column) = none :=
    List.find?_eq_none.mpr fun found hfound hsame =>
      h (Option.some.inj (of_decide_eq_true hsame) ▸ hfound)
  rw [remoteColumn?, hnone, Option.none_or]

/-- Among columns in lower case, a name is found if it is in lower case as well. -/
theorem remoteColumn?_lowered {remote : String}
    (hlower : ∀ f ∈ j.fields, Text.lower f.name = f.name)
    (hcolumn : j.HasColumn (Text.lower column) entity)
    (h : remoteColumn? j entity (some column) = some remote) :
    (Text.lower column = column → remote = column) ∧
      (Text.lower column ≠ column → (columnsFor j entity).head? = some remote) := by
  constructor
  · intro hsame
    rw [remoteColumn?_declared (mem_columnsFor.mpr (hsame ▸ hcolumn))] at h
    exact (Option.some.inj h).symm
  · intro hmixed
    have hnone : column ∉ columnsFor j entity := fun hmem => by
      obtain ⟨f, hf, rfl, -⟩ := mem_columnsFor.mp hmem
      exact hmixed (hlower f hf)
    rwa [remoteColumn?_undeclared hnone] at h

/-- A field gets its columns from the link entity, if that is there. -/
theorem synthesize_leads {made : List String} (hnodup : m.entityNames.Nodup)
    (hm : m.DistinctFields) (h : Ends (synthesize dialect) m made m')
    (he : m.entity? owner = some e) (hconcrete : e.isAbstract = false) (hf : f ∈ e.fields)
    (hleads : f.Leads entity link) (hname : link.name = some name)
    (hj : m.entity? name = some j) :
    ∃ e' f' remote own, m'.entity? owner = some e' ∧ f' ∈ e'.fields ∧ f'.outline = f.outline ∧
      f'.Leads entity { name := name, localId := some own, remoteId := some remote } ∧
      remoteColumn? j entity link.remoteId = some remote := by
  obtain rfl := Model.entity?_name he
  obtain ⟨target, htype, rfl⟩ := hleads
  obtain ⟨index, hindex⟩ := List.mem_iff_getElem?.mp hf
  have hmem := mem_sites_of_mref (Model.entity?_mem he) hconcrete hindex htype hname
  obtain ⟨remote, own, hremote, e', he', hf'⟩ := (synthesize_rounds hnodup hm h).1.takes hnodup hm
    hmem ⟨e, he, hindex⟩ htype hj
  refine ⟨e', _, remote, own, he', List.mem_of_getElem? hf', ?_, ⟨target, rfl, rfl⟩, hremote⟩
  simp [Field.outline, htype, FieldType.outline]

end Link

/-! ### From pass to pass -/

namespace Pass

theorem completeNames_leads (hm : m.Distinct) (h : Ends (completeNames dialect) m () m')
    (he : m.entity? owner = some e) (hf : f ∈ e.fields) (hdeclares : f.Declares entity name column)
    (hj : m.entity? name = some j) (hcolumn : j.HasColumn column entity) :
    ∃ e' f' link, m'.entity? owner = some e' ∧ SameOutline e e' ∧ f' ∈ e'.fields ∧
      f'.outline = f.outline ∧ f'.Leads entity link ∧ link.name = some name ∧
      link.remoteId = some column := by
  have hnames := completeNames_steps h
  have hsame := Link.assignNames_unlinked hnames
  obtain ⟨i, hi⟩ := List.mem_iff_getElem?.mp (Model.entity?_mem he)
  obtain ⟨k, hk⟩ := List.mem_iff_getElem?.mp hf
  obtain ⟨e', hi', he'⟩ := hsame.entityAt hi
  obtain ⟨f', hk', hf'⟩ := getElem?_of_forall₂ (SameBy.forall₂ he') hk
  have hplace : Link.fieldAt? m (i, k) = some f := by simp [Link.fieldAt?, hi, hk]
  obtain ⟨g, link, hg, hleads, hname, hremote⟩ := Link.assignNames_led hnames
    ⟨hm.fields, ⟨j, hj, hcolumn⟩, f, hplace, hdeclares⟩
  obtain rfl : f' = g := by simpa [Link.fieldAt?, hi', hk'] using hg
  have hfound := Model.entity?_of_mem (hsame.nodup isChange_sameUnlinked hm.names)
    (List.mem_of_getElem? hi')
  rw [he'.sameOutline.sameStanding.name, Model.entity?_name he] at hfound
  exact ⟨e', f', link, hfound, he'.sameOutline, List.mem_of_getElem? hk',
    Field.outline_of_unlinked hf', hleads, hname, hremote⟩

/-- While keys are completed, only a discriminator can take the place of a column. -/
theorem completeKeys_column (hnodup : m.entityNames.Nodup)
    (h : Ends (completeKeys options) m warnings m') (hj : m.entity? name = some j)
    (hcolumn : j.HasColumn column entity) (hstays : ¬Replaces options m j column) :
    ∃ j', m'.entity? name = some j' ∧ j'.HasColumn column entity := by
  obtain ⟨j', hj', hkept⟩ := completeKeys_kept hnodup h hj
  obtain ⟨f, hf, rfl, hmref, htarget⟩ := hcolumn
  refine ⟨j', hj', f, ?_, rfl, hmref, htarget⟩
  rcases hkept f hf with hf | hgives | ⟨-, hmoves⟩
  · exact hf
  · exact absurd hgives.replaces hstays
  · rw [hmref] at hmoves
    cases hmoves

/-- A field of a concrete entity does not move away. -/
theorem completeKeys_field (hnodup : m.entityNames.Nodup)
    (h : Ends (completeKeys options) m warnings m') (he : m.entity? owner = some e)
    (hconcrete : e.isAbstract = false) (hf : f ∈ e.fields)
    (hstays : ¬Replaces options m e f.name) :
    ∃ e', m'.entity? owner = some e' ∧ e'.isAbstract = false ∧ f ∈ e'.fields := by
  obtain ⟨e', he', hkept⟩ := completeKeys_kept hnodup h he
  obtain ⟨x, hx, hsame⟩ := (completeKeys_standing hnodup h).entity? isChange_sameStanding he
  obtain rfl : e' = x := Option.some.inj (he'.symm.trans hx)
  refine ⟨e', he', hsame.isAbstract.trans hconcrete, ?_⟩
  rcases hkept f hf with hf | hgives | ⟨hmoves, -⟩
  · exact hf
  · exact absurd hgives.replaces hstays
  · rw [hconcrete] at hmoves
    cases hmoves

/-- While references are completed, columns are put in lower case. -/
theorem completeReferences_column (h : Ends completeReferences m () m')
    (hj : m.entity? name = some j) (hcolumn : j.HasColumn column entity) :
    ∃ j', m'.entity? name = some j' ∧ j'.HasColumn (Text.lower column) entity := by
  obtain ⟨j', hj', -, hfields⟩ := completeReferences_heading h hj
  obtain ⟨f, hf, rfl, hmref, htarget⟩ := hcolumn
  obtain ⟨f', hf', hheading⟩ := hfields f hf
  refine ⟨j', hj', f', hf', ?_, ?_, ?_⟩
  · rw [← Field.name_heading f', hheading]
    rfl
  · rw [← Field.isMref_heading f', hheading, ← hmref, ← Field.isMref_heading f]
    rfl
  · rw [← Field.targetEntity?_heading f', hheading, ← htarget, ← Field.targetEntity?_heading f]
    rfl

/-- Links are left as they are when fields are put in lower case. -/
theorem completeReferences_leads (h : Ends completeReferences m () m')
    (he : m.entity? owner = some e) (hf : f ∈ e.fields) (hleads : f.Leads entity link) :
    ∃ e' f', m'.entity? owner = some e' ∧ e'.isAbstract = e.isAbstract ∧ f' ∈ e'.fields ∧
      f'.outline = (FieldCase.lowerField f).outline ∧ f'.Leads entity link := by
  obtain ⟨e', he', habstract, hfields⟩ := completeReferences_heading h he
  obtain ⟨f', hf', hheading⟩ := hfields f hf
  have hlowered : (FieldCase.lowerField f).Leads entity link := hleads
  exact ⟨e', f', he', habstract, hf', Field.outline_of_heading hheading,
    hlowered.of_heading hheading⟩

/-- Once fields are backed, the columns that a link has stay, and columns stay in their order. -/
theorem completed_prolongs {m₁ : Model} (hnodup : m.entityNames.Nodup)
    (hlinks : Ends (completeLinks dialect) m () m₁)
    (htables : Ends (completeTables options) m₁ () m') : ∃ made mid added,
      Ends (Link.synthesize dialect) m made mid ∧ Evolves Prolongs added mid m' := by
  obtain ⟨made, mid, hmade, hresolve⟩ := completeLinks_steps hlinks
  have hresolved := Reference.resolveEntities_prolongs hresolve
  have hnodup₁ := hresolved.nodup isChange_prolongs
    ((Link.synthesize_evolves hmade).nodup isChange_sameBearing hnodup)
  obtain ⟨added, htabled⟩ := completeTables_prolongs hnodup₁ htables
  exact ⟨made, mid, added, hmade, hresolved.trans isChange_prolongs htabled⟩

end Pass

/-- The field ends as `f'` and refers to `entity` by the link entity `j`, which has the declared
column in lower case. The column of the link is that one if it was declared in lower case,
and otherwise the first for the same target. -/
structure Field.Directed (f f' : Field) (j : Entity) (entity column remote : String) : Prop where
  kept : f.KeptAs f'
  leads : ∃ own : String,
    f'.Leads entity { name := j.name, localId := own, remoteId := remote }
  there : j.HasColumn (Text.lower column) entity
  declared : Text.lower column = column → remote = column
  first : Text.lower column ≠ column → (Link.columnsFor j entity).head? = some remote

namespace Pass

section References

variable {m₁ m₂ m₃ : Model} (hm : m.Distinct)
  (hnames : Ends (completeNames options.dialect) m () m₁)
  (hkeys : Ends (completeKeys options) m₁ warnings m₂)
  (hreferences : Ends completeReferences m₂ () m₃)

include hm hnames hkeys hreferences

/-- The column, until fields are backed. -/
theorem declared_column (hj : m.entity? name = some j) (hcolumn : j.HasColumn column entity)
    (hstays : ¬Replaces options m j column) :
    ∃ j₃, m₃.entity? name = some j₃ ∧ j₃.HasColumn (Text.lower column) entity := by
  have hunlinked := Link.assignNames_unlinked (completeNames_steps hnames)
  have hout := hunlinked.mono fun _ _ h => h.sameOutline
  obtain ⟨j₁, hj₁, hsame⟩ := hunlinked.entity? isChange_sameUnlinked hj
  rw [← replaces_outline hout hsame.sameOutline] at hstays
  obtain ⟨j₂, hj₂, hcolumn₂⟩ := completeKeys_column (hout.nodup isChange_sameOutline hm.names)
    hkeys hj₁ (hsame.hasColumn hcolumn) hstays
  exact completeReferences_column hreferences hj₂ hcolumn₂

/-- The field, until it is backed. -/
theorem declared_leads (he : m.entity? owner = some e) (hconcrete : e.isAbstract = false)
    (hf : f ∈ e.fields) (hj : m.entity? name = some j) (hdeclares : f.Declares entity name column)
    (hcolumn : j.HasColumn column entity) (hstays : ¬Replaces options m e f.name) :
    ∃ e₃ f₃ link, m₃.entity? owner = some e₃ ∧ e₃.isAbstract = false ∧ f₃ ∈ e₃.fields ∧
      f₃.outline = (FieldCase.lowerField f).outline ∧ f₃.Leads entity link ∧
      link.name = some name ∧ link.remoteId = some column := by
  have hout := Link.assignNames_outline (completeNames_steps hnames)
  obtain ⟨e₁, f₁, link, he₁, hsame, hf₁, hout₁, hleads₁, hname, hremote⟩ :=
    completeNames_leads hm hnames he hf hdeclares hj hcolumn
  rw [← replaces_outline hout hsame, ← Field.name_of_outline hout₁] at hstays
  obtain ⟨e₂, he₂, hconcrete₂, hf₂⟩ := completeKeys_field
    (hout.nodup isChange_sameOutline hm.names) hkeys he₁
    (hsame.sameStanding.isAbstract.trans hconcrete) hf₁ hstays
  obtain ⟨e₃, f₃, he₃, habstract₃, hf₃, hout₃, hleads₃⟩ :=
    completeReferences_leads hreferences he₂ hf₂ hleads₁
  exact ⟨e₃, f₃, link, he₃, habstract₃.trans hconcrete₂, hf₃,
    hout₃.trans (outline_lowerField hout₁), hleads₃, hname, hremote⟩

end References

theorem complete_directed (hm : m.AsRead) (h : Ends (complete options) m warnings m')
    (he : m.entity? owner = some e) (hconcrete : e.isAbstract = false) (hf : f ∈ e.fields)
    (hj : m.entity? name = some j) (hdeclares : f.Declares entity name column)
    (hcolumn : j.HasColumn column entity) (hfield : ¬Replaces options m e f.name)
    (hstays : ¬Replaces options m j column) : ∃ e' f' j' remote, m'.entity? owner = some e' ∧
      f' ∈ e'.fields ∧ m'.entity? name = some j' ∧ f.Directed f' j' entity column remote := by
  obtain ⟨m₁, m₂, m₃, m₄, hnames, hkeys, hreferences, hlinks, htables⟩ := complete_steps h
  have hordered := completeReferences_ordered hm.distinct hnames hkeys hreferences
  obtain ⟨j₃, hj₃, hcolumn₃⟩ :=
    declared_column hm.distinct hnames hkeys hreferences hj hcolumn hstays
  obtain ⟨e₃, f₃, link, he₃, hconcrete₃, hf₃, hout₃, hleads₃, hname, hremote⟩ :=
    declared_leads hm.distinct hnames hkeys hreferences he hconcrete hf hj hdeclares hcolumn hfield
  obtain ⟨made, mid, added, hmade, hprolongs⟩ := completed_prolongs hordered.names hlinks htables
  -- the field gets its column from the link entity
  obtain ⟨e₄, f₄, remote, own, he₄, hf₄, hout₄, hleads₄, htakes⟩ := Link.synthesize_leads
    hordered.names hordered.fields hmade he₃ hconcrete₃ hf₃ hleads₃ hname hj₃
  rw [hremote] at htakes
  obtain ⟨hdeclared, hfirst⟩ := Link.remoteColumn?_lowered
    (completeReferences_lowerCase hreferences j₃ (Model.entity?_mem hj₃)) hcolumn₃ htakes
  -- and both stay what they are
  obtain ⟨e', he', hsame⟩ := hprolongs.entity? isChange_prolongs he₄
  obtain ⟨f', hf', hheading⟩ := hsame.field hf₄
  obtain ⟨j₄, hj₄, hbearing⟩ := (Link.synthesize_evolves hmade).entity? isChange_sameBearing hj₃
  obtain ⟨j', hj', hsame'⟩ := hprolongs.entity? isChange_prolongs hj₄
  have hcolumns := Link.columnsFor_bearing hbearing entity ▸ hsame'.columnsFor entity
  refine ⟨e', f', j', remote, he', hf', hj', ?_, ⟨own, ?_⟩, ?_, hdeclared, fun hne => ?_⟩
  · refine Field.keptAs_of_outline ?_
    rw [Field.outline_of_heading hheading, hout₄, hout₃]
  · rw [Model.entity?_name hj']
    exact hleads₄.of_heading hheading
  · exact Link.mem_columnsFor.mp (hcolumns.subset (Link.mem_columnsFor.mpr hcolumn₃))
  · obtain ⟨rest, hrest⟩ := hcolumns
    rw [← hrest, List.head?_append, hfirst hne, Option.some_or]

end Pass

/-! ### Compiled models -/

/-- After a compilation, a field that declares a column of a declared link entity refers to
its target by that entity, and has the declared column if its name was in lower case. If not,
it has the first column for its target. Fields and columns that give way to a discriminator
are left out. -/
theorem compiled_link_column (options : Options) (library : Screens.Library)
    (schemas : List String) (screens : Option String) (c : Compiled)
    (h : Compilation.compile options library schemas screens = .ok c) :
    ∃ m, Compilation.declared options schemas = .ok m ∧
      ∀ e ∈ m.entities, e.isAbstract = false → ∀ f ∈ e.fields, ∀ j ∈ m.entities,
        ∀ column entity, f.Declares entity j.name column → j.HasColumn column entity →
        ¬Replaces options m e f.name → ¬Replaces options m j column →
        ∃ e' f' j' remote, c.model.entity? e.name = some e' ∧ f' ∈ e'.fields ∧
          c.model.entity? j.name = some j' ∧ f.Directed f' j' entity column remote := by
  obtain ⟨m, m', warnings, hdeclared, hcomplete, heq, -⟩ := Compilation.compile_declared h
  have hm := Compilation.declared_asRead hdeclared
  refine ⟨m, hdeclared, fun e he hconcrete f hf j hj column entity hdeclares hcolumn hfield
    hstays => ?_⟩
  obtain ⟨e', f', j', remote, he', hf', hj', hdirected⟩ := Pass.complete_directed hm hcomplete
    (Model.entity?_of_mem hm.names he) hconcrete hf (Model.entity?_of_mem hm.names hj) hdeclares
    hcolumn hfield hstays
  unfold Model.entity? at he' hj' ⊢
  exact ⟨e', f', j', remote, heq ▸ he', hf', heq ▸ hj', hdirected⟩

/-- Parents have children by families, which have two columns for persons; of these, the
second is for the children. -/
def families (parent child : String) : String :=
  "<m><entity name='Person'><field name='id' type='autoid'/>" ++
  "<field name='children' type='mref' xref_entity='Person' mref_name='Family' mref_remoteid='" ++
  child ++ "'/></entity><entity name='Family'><field name='id' type='autoid'/><field name='" ++
  parent ++ "' type='xref' xref_entity='Person'/><field name='" ++ child ++
  "' type='xref' xref_entity='Person'/></entity></m>"

/-- Persons have a field for their children, which declares this column of families. -/
def DeclaresChildren (m : Model) (child : String) : Prop :=
  ∃ e ∈ m.entities, e.name = "Person" ∧ e.isAbstract = false ∧ ∃ f ∈ e.fields,
    f.name = "children" ∧ ∃ j ∈ m.entities, j.name = "Family" ∧
      f.Declares "Person" j.name child ∧ j.HasColumn child "Person"

instance {child : String} : Decidable (DeclaresChildren m child) :=
  inferInstanceAs (Decidable (∃ e ∈ m.entities, _ ∧ _ ∧ ∃ f ∈ e.fields, _ ∧ ∃ j ∈ m.entities,
    _ ∧ _ ∧ ∃ f ∈ j.fields, _))

theorem families_directed : ∃ c,
    Compilation.compile {} Screens.noLibrary [families "parent" "child"] none = .ok c ∧
      ∃ (e : Entity) (f f' : Field) (j : Entity), c.model.entity? "Person" = some e ∧
        f' ∈ e.fields ∧ c.model.entity? "Family" = some j ∧
        f.Directed f' j "Person" "child" "child" := by
  have hrun : (Compilation.compile {} Screens.noLibrary
      [families "parent" "child"] none).toOption.any
      (fun _ => (Compilation.declared {} [families "parent" "child"]).toOption.any
        (DeclaresChildren · "child")) = true := by decide +kernel
  obtain ⟨c, hc, hrun⟩ := Except.exists_ok_and hrun
  obtain ⟨m, hm, hchildren⟩ := Except.exists_ok_and hrun
  obtain ⟨m', hm', hall⟩ := compiled_link_column _ _ _ _ c hc
  obtain rfl : m = m' := Except.ok.inj (hm.symm.trans hm')
  obtain ⟨e, he, hperson, hconcrete, f, hf, hname, j, hj, hfamily, hdeclares, hcolumn⟩ :=
    of_decide_eq_true hchildren
  have hfield : ¬Replaces {} m e f.name := fun h => by
    rw [hname] at h
    exact absurd h.2.2 (by decide)
  have hstays : ¬Replaces {} m j "child" := fun h => absurd h.2.2 (by decide)
  obtain ⟨e', f', j', remote, he', hf', hj', hdirected⟩ :=
    hall e he hconcrete f hf j hj "child" "Person" hdeclares hcolumn hfield hstays
  obtain rfl := hdirected.declared (by decide)
  exact ⟨c, hc, e', f, f', j', hperson ▸ he', hf', hfamily ▸ hj', hdirected⟩

/-- Where the names of the columns have capital letters, parents are taken for children. -/
theorem compiled_link_column_not_always_declared :
    ¬∀ (options : Options) (library : Screens.Library) (schemas : List String)
      (screens : Option String) (c : Compiled),
      Compilation.compile options library schemas screens = .ok c →
      ∃ m, Compilation.declared options schemas = .ok m ∧
        ∀ e ∈ m.entities, e.isAbstract = false → ∀ f ∈ e.fields, ∀ j ∈ m.entities,
          ∀ column entity, f.Declares entity j.name column → j.HasColumn column entity →
          ∃ e' f' own, c.model.entity? e.name = some e' ∧ f' ∈ e'.fields ∧ f.KeptAs f' ∧
            f'.Leads entity { name := j.name, localId := own, remoteId := Text.lower column } := by
  intro hall
  have hrun : (Compilation.compile {} Screens.noLibrary
      [families "Parent" "Child"] none).toOption.any
      (fun c => (Compilation.declared {} [families "Parent" "Child"]).toOption.any
        fun m => DeclaresChildren m "Child" ∧ ∀ e ∈ c.model.entities, ∀ f ∈ e.fields,
          f.type.link?.bind (·.remoteId) ≠ some "child") = true := by decide +kernel
  obtain ⟨c, hc, hrun⟩ := Except.exists_ok_and hrun
  obtain ⟨m, hm, hchildren⟩ := Except.exists_ok_and hrun
  obtain ⟨m', hm', hled⟩ := hall _ _ _ _ c hc
  obtain rfl : m = m' := Except.ok.inj (hm.symm.trans hm')
  obtain ⟨⟨e, he, -, hconcrete, f, hf, -, j, hj, -, hdeclares, hcolumn⟩, hparents⟩ :=
    of_decide_eq_true hchildren
  obtain ⟨e', f', own, he', hf', -, target, htype, -⟩ :=
    hled e he hconcrete f hf j hj _ _ hdeclares hcolumn
  have hremote := hparents e' (Model.entity?_mem he') f' hf'
  rw [htype] at hremote
  exact hremote (congrArg some (by decide))

end EntitySchema
