import EntitySchema.Proofs.Completion

/-! What is declared is kept. A field of an entity is followed through all passes: it
gives way only to a discriminator, or moves away from an interface when it is
many-to-many; else it ends as a field of the same entity with its name in lower
case and a reference that was completed. -/

namespace EntitySchema

open Model (Evolves)
open Entity (SameOutline SameStanding Grows isChange_gains isChange_sameOutline
  isChange_sameBearing isChange_sameStanding isChange_grows)

variable {m m' : Model} {options : Options} {warnings : List Warning} {name : String}
  {e : Entity} {f f' : Field}

/-- The second field is the first with its name in lower case, up to what a reference
points at. -/
def Field.KeptAs (f f' : Field) : Prop :=
  f' = { f with name := Text.lower f.name, type := f'.type } ∧ f'.type.name = f.type.name

/-- The field gives way to the discriminator of its hierarchy, with one warning about
its entity if it was declared. -/
def GivesWay (options : Options) (m : Model) (warnings : List Warning) (e : Entity) (f : Field) :
    Prop :=
  options.mapping = .subclassPerTable ∧ f.name = "type" ∧ m.InHierarchy e ∧
    (f.origin = .declared → warnings.count (Hierarchy.replaced e.name) = 1)

/-- The field moves from an interface to the entities that implement it. -/
def MovesAway (e : Entity) (f : Field) : Prop := e.isAbstract = true ∧ f.isMref = true

/-! ### Passes that take fields away -/

theorem mem_eraseP_or {α : Type} {p : α → Bool} {a : α} : ∀ {l : List α}, a ∈ l →
    a ∈ l.eraseP p ∨ l.find? p = some a
  | x :: rest, h => by
    rw [List.eraseP_cons, List.find?_cons]
    rcases List.mem_cons.mp h with rfl | h
    · cases p a <;> simp
    · cases p x
      · exact (mem_eraseP_or h).imp_left (List.mem_cons_of_mem x)
      · exact .inl h

theorem Model.inHierarchy_standing (h : Evolves SameStanding [] m m') {e' : Entity}
    (he : SameStanding e e') : m'.InHierarchy e' ↔ m.InHierarchy e := by
  unfold Model.InHierarchy
  rw [Model.isRoot_standing h, he.name, he.parents]

/-- A field that an entity does not keep is the one that the discriminator replaces. -/
theorem Hierarchy.Discriminated.field {e' : Entity} {found : List Warning}
    (h : Discriminated m e e' found) (hf : f ∈ e.fields) : f ∈ e'.fields ∨
      f.name = "type" ∧ m.InHierarchy e ∧ (f.origin = .declared → found = [replaced e.name]) := by
  cases h with
  | apart _ => exact .inl hf
  | within hwithin =>
    rcases mem_eraseP_or (p := fun g : Field => g.name = discriminatorName) hf with hf | hfirst
    · exact .inl (List.mem_append_right _ hf)
    · have hname : f.name = discriminatorName := by simpa using List.find?_some hfirst
      refine .inr ⟨hname, hwithin, fun horigin => ?_⟩
      have hfound : e.field? discriminatorName = some f := hfirst
      unfold replacements
      rw [hfound]
      simp [horigin]

theorem completeKeys_kept (hnodup : m.entityNames.Nodup)
    (h : Ends (Pass.completeKeys options) m warnings m') (he : m.entity? name = some e) :
    ∃ e', m'.entity? name = some e' ∧ ∀ f ∈ e.fields,
      f ∈ e'.fields ∨ GivesWay options m warnings e f ∨ MovesAway e f := by
  obtain ⟨m₁, m₂, m₃, hkeys, hdisc, -, hlabels, hrelocate⟩ := Pass.completeKeys_steps h
  obtain ⟨-, hgains⟩ := Hierarchy.propagateKeys_ok hkeys
  have hstanding : Evolves SameStanding [] m m₁ := hgains.mono fun _ _ h => h.sameStanding
  obtain ⟨e₁, he₁, front, back, keys, rfl⟩ := hgains.entity? isChange_gains he
  obtain ⟨e₂, he₂, hsame₂, hfields₂⟩ : ∃ e₂, m₂.entity? name = some e₂ ∧
      e₂.isAbstract = e.isAbstract ∧
      ∀ f ∈ e.fields, f ∈ e₂.fields ∨ GivesWay options m warnings e f := by
    rcases hdisc with ⟨hmapping, hdisc⟩ | ⟨-, -, rfl⟩
    · have hnodup₁ := hstanding.nodup isChange_sameStanding hnodup
      obtain ⟨hstanding₂, hall⟩ := Hierarchy.addDiscriminators_ok hnodup₁ hdisc
      obtain ⟨e₂, he₂, hdiscriminated⟩ := hall name _ he₁
      obtain ⟨e₂', he₂', hsame⟩ := hstanding₂.entity? isChange_sameStanding he₁
      rw [he₂] at he₂'
      cases he₂'
      refine ⟨e₂, he₂, hsame.isAbstract, fun f hf => ?_⟩
      have hf₁ : f ∈ front ++ e.fields ++ back := by simp [hf]
      refine (hdiscriminated.field hf₁).imp_right fun ⟨htype, hin, hwarned⟩ => ?_
      refine ⟨hmapping, htype, (Model.inHierarchy_standing hstanding ⟨rfl, rfl, rfl, rfl⟩).mp hin,
        fun horigin => ?_⟩
      have hname : e.name = name := Model.entity?_name he
      rw [hname, Hierarchy.count_replaced, hwarned horigin]
      rfl
    · exact ⟨_, he₁, rfl, fun f hf => .inl (by simp [hf])⟩
  obtain ⟨e₃, he₃, hlabelled⟩ :=
    (Keys.assignLabels_relabels hlabels).entity? Entity.isChange_relabels he₂
  obtain ⟨moved, hmoved, rfl⟩ := Link.relocate_ok hrelocate
  obtain ⟨e₄, he₄, front₄, back₄, keys₄, rfl⟩ := hmoved.entity? isChange_gains he₃
  obtain ⟨e₅, he₅, hstrips⟩ := Link.stripInterfaces_entity? he₄
  refine ⟨e₅, he₅, fun f hf => ?_⟩
  rcases hfields₂ f hf with hf | hgives
  · have hf₄ : f ∈ front₄ ++ e₃.fields ++ back₄ := by simp [hlabelled.fields, hf]
    refine (hstrips.field hf₄).imp_right fun ⟨habstract, hmref⟩ => .inr ⟨?_, hmref⟩
    exact (hlabelled.sameStanding.isAbstract.trans hsame₂) ▸ habstract
  · exact .inr (.inl hgives)

/-! ### Passes that keep all fields -/

theorem outline_lowerField {g : Field} (h : g.outline = f.outline) :
    (FieldCase.lowerField g).outline = (FieldCase.lowerField f).outline :=
  congrArg FieldCase.lowerField h

theorem Field.keptAs_of_outline (h : f'.outline = (FieldCase.lowerField f).outline) :
    f.KeptAs f' := by
  have hkind : f'.type.name = (FieldCase.lowerField f).type.name := Field.kind_of_outline h
  exact ⟨(congrArg (fun x : Field => { x with type := f'.type }) h :), hkind⟩

/-- The second entity has the fields of the first in lower case, and keys and indices that
follow them. -/
structure Entity.Lowers (e e' : Entity) : Prop extends SameStanding e e' where
  fields : e'.fields.map Field.outline = e.fields.map (fun f => (FieldCase.lowerField f).outline)
  keys : e'.keys = e.keys.map fun key =>
    { key with fields := key.fields.map (FieldCase.follow e.fields) }
  indices : e'.indices = e.indices.map fun index =>
    { index with fields := index.fields.map (FieldCase.follow e.fields) }

/-- From the relocated fields on, every entity is found again in lower case. -/
theorem completeReferences_entity? (h : Ends Pass.completeReferences m () m')
    (he : m.entity? name = some e) : ∃ e', m'.entity? name = some e' ∧ e.Lowers e' := by
  obtain ⟨m₁, m₂, m₃, hfirst, hcase, hsecond, heq⟩ := Pass.completeReferences_steps h
  obtain ⟨e₁, he₁, hout₁⟩ := (Reference.resolveAll_outline hfirst).entity? isChange_sameOutline he
  have he₂ := FieldCase.correct_entity? hcase he₁
  obtain ⟨e₃, he₃, hout₃⟩ := (Reference.resolveAll_outline hsecond).entity? isChange_sameOutline he₂
  have hfollow : FieldCase.follow e₁.fields = FieldCase.follow e.fields := by
    unfold FieldCase.follow FieldCase.mixed
    rw [hout₁.fieldNames]
  have hcorrected : SameStanding e₁ (FieldCase.correctedEntity e₁) := ⟨rfl, rfl, rfl, rfl⟩
  refine ⟨e₃, by rwa [Model.entity?, heq], {
    isChange_sameStanding.trans hout₁.sameStanding
      (isChange_sameStanding.trans hcorrected hout₃.sameStanding) with
    fields := ?_
    keys := hfollow ▸ hout₁.keys ▸ hout₃.keys
    indices := hfollow ▸ hout₁.indices ▸ hout₃.indices }⟩
  have hlower : ∀ fields : List Field, fields.map (fun f => (FieldCase.lowerField f).outline) =
      (fields.map Field.outline).map FieldCase.lowerField := fun fields => by
    rw [List.map_map]
    rfl
  calc e₃.fields.map Field.outline
      = (e₁.fields.map FieldCase.corrected).map Field.outline := hout₃.1
    _ = e₁.fields.map (fun f => (FieldCase.lowerField f).outline) := by
      rw [List.map_map]
      exact List.map_congr_left fun f _ => FieldCase.outline_corrected f
    _ = e.fields.map (fun f => (FieldCase.lowerField f).outline) := by
      rw [hlower, hout₁.1, hlower]

theorem completeReferences_kept (h : Ends Pass.completeReferences m () m')
    (he : m.entity? name = some e) : ∃ e', m'.entity? name = some e' ∧
      ∀ f ∈ e.fields, ∃ f' ∈ e'.fields, f'.outline = (FieldCase.lowerField f).outline := by
  obtain ⟨e', he', hlowers⟩ := completeReferences_entity? h he
  exact ⟨e', he', fun f hf => List.mem_map.mp (hlowers.fields.symm ▸ List.mem_map_of_mem hf)⟩

/-- Every entity stays in its place, and so does every field of it, but for those that
give way to discriminators or move away from interfaces. -/
theorem declared_kept (options : Options) (m m' : Model) (warnings : List Warning)
    (hnodup : m.entityNames.Nodup) (h : Ends (Pass.complete options) m warnings m') :
    m.entityNames <+: m'.entityNames ∧ ∀ e ∈ m.entities, ∃ e', m'.entity? e.name = some e' ∧
      ∀ f ∈ e.fields, (∃ f' ∈ e'.fields, f.KeptAs f') ∨ GivesWay options m warnings e f ∨
        MovesAway e f := by
  obtain ⟨m₁, m₂, m₃, m₄, hnames, hkeys, hreferences, hlinks, htables⟩ := Pass.complete_steps h
  have hout₁ := Link.assignNames_outline (Pass.completeNames_steps hnames)
  have hstanding₁ := Pass.completeNames_standing hnames
  have hnodup₁ := hstanding₁.nodup isChange_sameStanding hnodup
  have hstanding₂ := Pass.completeKeys_standing hnodup₁ hkeys
  have hnodup₂ := hstanding₂.nodup isChange_sameStanding hnodup₁
  have hstanding₃ := Pass.completeReferences_standing hreferences
  have hnodup₃ := hstanding₃.nodup isChange_sameStanding hnodup₂
  obtain ⟨made, hgrows₄⟩ := Pass.completeLinks_grows hlinks
  have hnodup₄ := hgrows₄.nodup isChange_grows hnodup₃
  obtain ⟨added, hgrows₅⟩ := Pass.completeTables_grows hnodup₄ htables
  have hgrows := hgrows₄.trans isChange_grows hgrows₅
  constructor
  · rw [hgrows.entityNames isChange_grows, hstanding₃.entityNames isChange_sameStanding,
      hstanding₂.entityNames isChange_sameStanding, hstanding₁.entityNames isChange_sameStanding]
    simp
  · intro e he
    obtain ⟨e₁, he₁, hsame₁⟩ := hout₁.entity? isChange_sameOutline (Model.entity?_of_mem hnodup he)
    obtain ⟨e₂, he₂, hkept₂⟩ := completeKeys_kept hnodup₁ hkeys he₁
    obtain ⟨e₃, he₃, hkept₃⟩ := completeReferences_kept hreferences he₂
    obtain ⟨e', he', hgrown⟩ := hgrows.entity? isChange_grows he₃
    refine ⟨e', he', fun f hf => ?_⟩
    obtain ⟨f₁, hf₁, hout⟩ := hsame₁.grows.field hf
    rcases hkept₂ f₁ hf₁ with hf₂ | ⟨hmapping, htype, hin, hwarned⟩ | ⟨habstract, hmref⟩
    · obtain ⟨f₃, hf₃, hkept⟩ := hkept₃ f₁ hf₂
      obtain ⟨f', hf', hsame⟩ := hgrown.field hf₃
      refine .inl ⟨f', hf', Field.keptAs_of_outline ?_⟩
      exact hsame.trans (hkept.trans (outline_lowerField hout))
    · rw [Field.name_of_outline hout] at htype
      rw [Field.origin_of_outline hout, hsame₁.sameStanding.name] at hwarned
      rw [Model.inHierarchy_standing hstanding₁ hsame₁.sameStanding] at hin
      exact .inr (.inl ⟨hmapping, htype, hin, hwarned⟩)
    · rw [Field.isMref_of_outline hout] at hmref
      rw [hsame₁.sameStanding.isAbstract] at habstract
      exact .inr (.inr ⟨habstract, hmref⟩)

/-- A family of parties: the declared type of a person gives way, its codes stay. -/
def parties : Model :=
  let identity : Field := { Field.named "id" .int with auto := true }
  { Model.empty with entities := [
      { Entity.named "Tagged" with
        isAbstract := true
        fields := [identity, Field.named "tags" (.mref { entity := "Party" } {})]
        keys := [{ fields := ["id"] }] },
      { Entity.named "Party" with fields := [identity], keys := [{ fields := ["id"] }] },
      { Entity.named "Person" with
        parents := ["Party"]
        fields := [Field.named "type" (.string 20), Field.named "Code" (.string 8)] }] }

theorem parties_kept : ∃ m', Ends (Pass.complete {}) parties [Hierarchy.replaced "Person"] m' ∧
    parties.entityNames <+: m'.entityNames := by
  have hrun : Ends (Pass.complete {}) parties [Hierarchy.replaced "Person"]
      ((Pass.complete {}).run parties).2 := Prod.ext (by decide +kernel) rfl
  exact ⟨_, hrun, (declared_kept _ _ _ _ (by decide) hrun).1⟩

end EntitySchema
