import EntitySchema.Proofs.DisplayLabels
import EntitySchema.Proofs.Outcome

/-! Keys when fields are put in lower case. In the keys of an entity the names of its own
fields follow, while those of inherited fields stay as they were written. So a key loses
an inherited field whose name was not in lower case, and two keys become one where an own
field takes the name of an inherited one. -/

namespace EntitySchema

variable {m m' : Model} {e e' : Entity} {a b name : String}

/-! ### Names in keys -/

namespace Entity

/-- The name of an own field in lower case, and any other name as it is. -/
def lowerOwn (e : Entity) (field : String) : String :=
  if e.hasField field then Text.lower field else field

/-- The names are one as soon as the own fields are in lower case. -/
def Meets (e : Entity) (a b : String) : Prop :=
  a = b ∨ (e.hasField a = true ∧ Text.lower a = b) ∨ (e.hasField b = true ∧ Text.lower b = a)

/-- The keys name own fields and fields in lower case only, and no two of them become one. -/
structure KeysFollow (e : Entity) : Prop where
  named : ∀ key ∈ e.keys, ∀ field ∈ key.fields, e.hasField field = true ∨ Text.lower field = field
  apart : e.keys.Pairwise fun k k' => ¬List.Forall₂ e.Meets k.fields k'.fields

theorem follow_eq (e : Entity) : FieldCase.follow e.fields = e.lowerOwn := by
  funext field
  unfold lowerOwn
  split
  · next hown =>
    obtain ⟨f, hf, rfl⟩ := List.mem_map.mp (hasField_iff.mp hown)
    exact FieldCase.follow_own hf
  · next hnot => exact FieldCase.follow_other (by simpa [hasField] using hnot)

theorem lower_lowerOwn (e : Entity) (field : String) :
    Text.lower (e.lowerOwn field) = Text.lower field := by
  rw [← follow_eq]
  exact FieldCase.lower_follow e.fields field

theorem lowerOwn_of_lower (h : Text.lower name = name) : e.lowerOwn name = name := by
  unfold lowerOwn
  rw [h, ite_self]

/-- The name ends up in lower case. -/
theorem lower_lowerOwn_eq_iff : Text.lower name = e.lowerOwn name ↔
    e.hasField name = true ∨ Text.lower name = name := by
  unfold lowerOwn
  split
  · next hown => simp [hown]
  · next hnot => simp [hnot]

/-- An own field cannot take the name of another one, so names meet only where one of them
is inherited. -/
theorem lowerOwn_eq_iff (hdistinct : (FieldCase.correctedEntity e).DistinctFields) :
    e.lowerOwn a = e.lowerOwn b ↔ e.Meets a b := by
  constructor
  · intro h
    unfold lowerOwn at h
    split at h <;> split at h
    · next ha hb =>
      obtain ⟨f, hf, rfl⟩ := List.mem_map.mp (hasField_iff.mp ha)
      obtain ⟨g, hg, rfl⟩ := List.mem_map.mp (hasField_iff.mp hb)
      have hnodup : (e.fields.map fun f => Text.lower f.name).Nodup := by
        have hdistinct : ((e.fields.map FieldCase.corrected).map (·.name)).Nodup := hdistinct
        rwa [List.map_map] at hdistinct
      exact .inl (congrArg Field.name (List.inj_on_of_nodup_map hnodup hf hg h))
    · next ha _ => exact .inr (.inl ⟨ha, h⟩)
    · next _ hb => exact .inr (.inr ⟨hb, h.symm⟩)
    · exact .inl h
  · have htakes : ∀ {a b}, e.hasField a = true → Text.lower a = b →
        e.lowerOwn a = e.lowerOwn b := by
      rintro a _ ha rfl
      rw [lowerOwn_of_lower (Text.lower_lower a)]
      exact if_pos ha
    rintro (rfl | ⟨ha, h⟩ | ⟨hb, h⟩)
    · rfl
    · exact htakes ha h
    · exact (htakes hb h).symm

end Entity

/-- The keys of all entities name visible fields, and no two keys of an entity name the same. -/
structure Model.KeysHold (m : Model) : Prop where
  seen : ∀ e ∈ m.entities, ∀ key ∈ e.keys, ∀ field ∈ key.fields, m.Sees e.name field
  distinct : ∀ e ∈ m.entities, (e.keys.map (·.fields)).Nodup

namespace FieldCase

/-- What becomes of the keys of an entity. A field that a key names is seen under the name
that the key has for it if it is the entity's own, or was in lower case. -/
structure Rekeyed (m' : Model) (e e' : Entity) : Prop where
  name : e'.name = e.name
  keys : e'.keys = e.keys.map fun key => { key with fields := key.fields.map e.lowerOwn }
  sees : ∀ key ∈ e.keys, ∀ field ∈ key.fields, m'.Sees e.name (e.lowerOwn field) ↔
    e.hasField field = true ∨ Text.lower field = field
  apart : (e'.keys.map (·.fields)).Nodup ↔
    e.keys.Pairwise fun k k' => ¬List.Forall₂ e.Meets k.fields k'.fields

theorem rekeyed (hcheck : Keys.check m = .ok ()) (hfields : m.DistinctFields)
    (h : Ends correct m () m') (he : e ∈ m.entities) : Rekeyed m' e (correctedEntity e) where
  name := rfl
  keys := by
    rw [← Entity.follow_eq]
    rfl
  sees key hkey field hfield := by
    obtain ⟨_, hkeys, -⟩ := Except.bind_ok (Except.forM_ok hcheck e he)
    have hsees : m.Sees e.name field := Keys.checkFields_ok hkeys hkey hfield
    rw [correct_sees_iff h, ← Entity.lower_lowerOwn_eq_iff]
    constructor
    · rintro ⟨name, -, hname⟩
      rw [← Entity.lower_lowerOwn e field, hname, Text.lower_lower]
    · exact fun hlower => ⟨field, hsees, hlower.symm⟩
  apart := by
    have hdistinct : (correctedEntity e).DistinctFields := by
      refine correct_distinct hfields h _ ?_
      rw [correct_ok h]
      exact List.mem_map_of_mem he
    have hsame : ∀ xs ys : List String, xs.map e.lowerOwn = ys.map e.lowerOwn ↔
        List.Forall₂ e.Meets xs ys := by
      intro xs ys
      rw [← List.forall₂_eq_eq_eq, List.forall₂_map_left_iff, List.forall₂_map_right_iff]
      simp only [Entity.lowerOwn_eq_iff hdistinct]
    have hkeys : (correctedEntity e).keys.map (·.fields) =
        e.keys.map fun key => key.fields.map e.lowerOwn := by
      rw [← Entity.follow_eq]
      exact List.map_map
    rw [hkeys, List.Nodup, List.pairwise_map]
    simp only [ne_eq, hsame]

/-- In a model whose keys were checked, putting fields in lower case changes each key in the
names of own fields only. A key still names a visible field exactly if that is an own
one or was in lower case, and the keys of an entity stay apart exactly if no two of them
differ only in an own field and the inherited field whose name it takes. The keys of the
result hold exactly if both are so for every entity. -/
theorem correct_keys (hcheck : Keys.check m = .ok ()) (hfields : m.DistinctFields)
    (h : Ends correct m () m') :
    List.Forall₂ (Rekeyed m') m.entities m'.entities ∧
      (m'.KeysHold ↔ ∀ e ∈ m.entities, e.KeysFollow) := by
  have hentities : m'.entities = m.entities.map correctedEntity :=
    congrArg Model.entities (correct_ok h)
  have hrekeyed : ∀ e ∈ m.entities, Rekeyed m' e (correctedEntity e) :=
    fun e he => rekeyed hcheck hfields h he
  refine ⟨?_, fun hholds e he => ?_, fun hfollow => ⟨fun e' he' => ?_, fun e' he' => ?_⟩⟩
  · rw [hentities, List.forall₂_map_right_iff]
    exact List.forall₂_same.mpr hrekeyed
  · have hmem : correctedEntity e ∈ m'.entities := hentities ▸ List.mem_map_of_mem he
    refine ⟨fun key hkey field hfield => ?_, (hrekeyed e he).apart.mp (hholds.distinct _ hmem)⟩
    refine ((hrekeyed e he).sees key hkey field hfield).mp ?_
    refine hholds.seen _ hmem _ ((hrekeyed e he).keys ▸ List.mem_map_of_mem hkey) _ ?_
    exact List.mem_map_of_mem hfield
  · rw [hentities] at he'
    obtain ⟨e, he, rfl⟩ := List.mem_map.mp he'
    intro key' hkey' field' hfield'
    rw [(hrekeyed e he).keys] at hkey'
    obtain ⟨key, hkey, rfl⟩ := List.mem_map.mp hkey'
    obtain ⟨field, hfield, rfl⟩ := List.mem_map.mp hfield'
    exact ((hrekeyed e he).sees key hkey field hfield).mpr ((hfollow e he).named key hkey field hfield)
  · rw [hentities] at he'
    obtain ⟨e, he, rfl⟩ := List.mem_map.mp he'
    exact (hrekeyed e he).apart.mpr (hfollow e he).apart

end FieldCase

/-- Articles are products with names of their own, and have keys over fields of products. -/
def stock : Model :=
  { Model.empty with entities := [
      { Entity.named "Product" with
        fields := [{ Field.named "id" .int with auto := true }, Field.named "Code" (.string 10),
          Field.named "name" (.string 20)]
        keys := [⟨["id"], false, none⟩] },
      { Entity.named "Article" with
        parents := ["Product"]
        fields := [Field.named "Name" (.string 20), Field.named "Size" .int]
        keys := [⟨["Code"], false, none⟩, ⟨["Name"], false, none⟩, ⟨["name"], false, none⟩,
          ⟨["Size", "id"], false, none⟩] }] }

theorem stock_corrected : ∃ m', Ends FieldCase.correct stock () m' ∧
    m'.entities.map (fun e => (e.name, e.fields.map (·.name), e.keys.map (·.fields))) =
      [("Product", ["id", "code", "name"], [["id"]]),
        ("Article", ["name", "size"], [["Code"], ["name"], ["name"], ["size", "id"]])] := by
  have hrun : (FieldCase.correct.run stock).1.toBool = true ∧
      (FieldCase.correct.run stock).2.entities.map
        (fun e => (e.name, e.fields.map (·.name), e.keys.map (·.fields))) =
      [("Product", ["id", "code", "name"], [["id"]]),
        ("Article", ["name", "size"], [["Code"], ["name"], ["name"], ["size", "id"]])] := by
    decide +kernel
  obtain ⟨hok, hentities⟩ := hrun
  obtain ⟨_, hok⟩ := Except.exists_ok hok
  exact ⟨_, Prod.ext hok rfl, hentities⟩

/-- Articles lose the code of products, and their keys do not hold. -/
theorem stock_rekeyed : Keys.check stock = .ok () ∧ stock.DistinctFields ∧
    ∃ m', Ends FieldCase.correct stock () m' ∧ ¬m'.Sees "Article" "Code" ∧ ¬m'.KeysHold := by
  have hcheck : Keys.check stock = .ok () := by decide +kernel
  have hfields : stock.DistinctFields := by decide +kernel
  have hloose : ∃ e ∈ stock.entities, e.name = "Article" ∧ ∃ key ∈ e.keys, "Code" ∈ key.fields ∧
      e.hasField "Code" = false ∧ Text.lower "Code" ≠ "Code" := by decide +kernel
  obtain ⟨m', hends, -⟩ := stock_corrected
  obtain ⟨hrekeyed, hiff⟩ := FieldCase.correct_keys hcheck hfields hends
  obtain ⟨e, he, hname, key, hkey, hcode, hown, hlower⟩ := hloose
  have hnot : ¬(e.hasField "Code" = true ∨ Text.lower "Code" = "Code") := by simp [hown, hlower]
  refine ⟨hcheck, hfields, m', hends, fun hsees => hnot ?_, fun hholds => hnot ?_⟩
  · obtain ⟨e', -, hkeys⟩ := exists_of_forall₂_left hrekeyed he
    refine (hkeys.sees key hkey "Code" hcode).mp ?_
    rw [hname, Entity.lowerOwn, hown]
    exact hsees
  · exact (hiff.mp hholds e he).named key hkey "Code" hcode

/-- Keys that name visible fields, and are all different, need not hold once fields are in
lower case. -/
theorem corrected_keys_not_always_hold : ¬∀ m m' : Model, Keys.check m = .ok () →
    m.entityNames.Nodup → m.DistinctFields → (∀ e ∈ m.entities, (e.keys.map (·.fields)).Nodup) →
      Ends FieldCase.correct m () m' → m'.KeysHold := by
  intro h
  obtain ⟨m', hends, hentities⟩ := stock_corrected
  have hholds : m'.KeysHold := h stock m' (by decide +kernel) (by decide) (by decide +kernel)
    (by decide +kernel) hends
  obtain ⟨e', he', hkeys⟩ : ∃ e' ∈ m'.entities,
      (e'.name, e'.fields.map (·.name), e'.keys.map (·.fields)) =
        ("Article", ["name", "size"], [["Code"], ["name"], ["name"], ["size", "id"]]) := by
    refine List.mem_map.mp ?_
    rw [hentities]
    simp
  simp only [Prod.mk.injEq] at hkeys
  have hdistinct := hholds.distinct e' he'
  rw [hkeys.2.2] at hdistinct
  exact absurd hdistinct (by decide)

end EntitySchema
