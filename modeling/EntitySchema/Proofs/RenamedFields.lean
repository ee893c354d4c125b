import EntitySchema.Proofs.Evolution

/-! Fields that take a new name. An entity has names of fields in four places: on its own
fields, in its keys, in its indices and among its labels. Renaming a field puts the one name
for the other in all of them. If the entity did not mention the new name before, renaming
back brings the entity back as it was, so no names that were told apart become the same. -/

namespace EntitySchema

/-- What can be mapped back stays different. -/
theorem nodup_map_of_back {α β : Type} {g : α → β} {xs : List α} (back : β → α)
    (hback : ∀ x ∈ xs, back (g x) = x) (h : xs.Nodup) : (xs.map g).Nodup :=
  h.map_on fun x hx y hy heq => by rw [← hback x hx, heq, hback y hy]

namespace Entity

variable {e : Entity} {g back : String → String} {old new name : String}

theorem hasField_iff : e.hasField name = true ↔ name ∈ e.fields.map (·.name) := by
  simp [hasField]

/-! ### The names of fields in an entity -/

/-- The lists of names that an entity has besides its fields: those of its keys, of its indices
and its labels. -/
def nameLists (e : Entity) : List (List String) :=
  e.keys.map (·.fields) ++ e.indices.map (·.fields) ++ e.labels.toList

/-- The names of its own fields, and all that stand in its lists. -/
def mentioned (e : Entity) : List String := e.fields.map (·.name) ++ e.nameLists.flatten

/-- The entity with every name of a field changed, and nothing else. -/
def mapNames (g : String → String) (e : Entity) : Entity :=
  { e with
    fields := e.fields.map fun f => { f with name := g f.name }
    keys := e.keys.map fun key => { key with fields := key.fields.map g }
    indices := e.indices.map fun index => { index with fields := index.fields.map g }
    labels := e.labels.map fun labels => labels.map g }

theorem fieldNames_mapNames (g : String → String) (e : Entity) :
    (e.mapNames g).fields.map (·.name) = (e.fields.map (·.name)).map g := by
  simp [mapNames]

theorem keyLists_mapNames (g : String → String) (e : Entity) :
    (e.mapNames g).keys.map (·.fields) = (e.keys.map (·.fields)).map (List.map g) := by
  simp [mapNames]

theorem nameLists_mapNames (g : String → String) (e : Entity) :
    (e.mapNames g).nameLists = e.nameLists.map (List.map g) := by
  have hindices : (e.mapNames g).indices.map (·.fields) =
      (e.indices.map (·.fields)).map (List.map g) := by simp [mapNames]
  have hlabels : (e.mapNames g).labels.toList = e.labels.toList.map (List.map g) := by
    unfold mapNames
    cases e.labels <;> rfl
  unfold nameLists
  rw [keyLists_mapNames, hindices, hlabels, List.map_append, List.map_append]

theorem mentioned_mapNames (g : String → String) (e : Entity) :
    (e.mapNames g).mentioned = e.mentioned.map g := by
  unfold mentioned
  rw [fieldNames_mapNames, nameLists_mapNames, List.map_append, List.map_flatten]

theorem mapNames_mapNames (g back : String → String) (e : Entity) :
    (e.mapNames g).mapNames back = e.mapNames (back ∘ g) := by
  simp [mapNames, Function.comp_def]

theorem mapNames_id (e : Entity) : e.mapNames id = e := by
  simp [mapNames]

theorem mem_nameLists {names : List String} : names ∈ e.nameLists ↔
    (∃ key ∈ e.keys, key.fields = names) ∨ (∃ index ∈ e.indices, index.fields = names) ∨
      e.labels = some names := by
  simp [nameLists]

theorem fieldName_mentioned (h : name ∈ e.fields.map (·.name)) : name ∈ e.mentioned :=
  List.mem_append_left _ h

theorem mem_mentioned_of_mem {names : List String} (hnames : names ∈ e.nameLists)
    (hname : name ∈ names) : name ∈ e.mentioned :=
  List.mem_append_right _ (List.mem_flatten_of_mem hnames hname)

/-- Only names that are mentioned matter. -/
theorem mapNames_congr {g' : String → String} (h : ∀ n ∈ e.mentioned, g n = g' n) :
    e.mapNames g = e.mapNames g' := by
  have hlist : ∀ names ∈ e.nameLists, names.map g = names.map g' := fun names hnames =>
    List.map_congr_left fun n hn => h n (mem_mentioned_of_mem hnames hn)
  have hfields : (e.mapNames g).fields = (e.mapNames g').fields :=
    List.map_congr_left fun f hf => by rw [h f.name (fieldName_mentioned (List.mem_map_of_mem hf))]
  have hkeys : (e.mapNames g).keys = (e.mapNames g').keys :=
    List.map_congr_left fun key hkey => by
      rw [hlist key.fields (mem_nameLists.mpr (.inl ⟨key, hkey, rfl⟩))]
  have hindices : (e.mapNames g).indices = (e.mapNames g').indices :=
    List.map_congr_left fun index hindex => by
      rw [hlist index.fields (mem_nameLists.mpr (.inr (.inl ⟨index, hindex, rfl⟩)))]
  have hlabels : (e.mapNames g).labels = (e.mapNames g').labels :=
    Option.map_congr fun labels hlabels => hlist labels (mem_nameLists.mpr (.inr (.inr hlabels)))
  have hparts : ∀ g, e.mapNames g = { e with
      fields := (e.mapNames g).fields, keys := (e.mapNames g).keys
      indices := (e.mapNames g).indices, labels := (e.mapNames g).labels } := fun _ => rfl
  rw [hparts g, hparts g', hfields, hkeys, hindices, hlabels]

/-! ### Names that can be mapped back -/

section Back

variable (hback : ∀ n ∈ e.mentioned, back (g n) = n)

include hback

theorem mapNames_back : (e.mapNames g).mapNames back = e := by
  have hid : e.mapNames (back ∘ g) = e.mapNames id := mapNames_congr hback
  rw [mapNames_mapNames, hid, mapNames_id]

theorem fieldNames_back (h : (e.fields.map (·.name)).Nodup) :
    ((e.mapNames g).fields.map (·.name)).Nodup := by
  rw [fieldNames_mapNames]
  exact nodup_map_of_back back (fun n hn => hback n (fieldName_mentioned hn)) h

theorem keyLists_back (h : (e.keys.map (·.fields)).Nodup) :
    ((e.mapNames g).keys.map (·.fields)).Nodup := by
  rw [keyLists_mapNames]
  refine nodup_map_of_back (List.map back) (fun names hnames => ?_) h
  rw [List.map_map]
  refine (List.map_congr_left fun n hn => hback n ?_).trans (List.map_id names)
  exact mem_mentioned_of_mem (mem_nameLists.mpr (.inl (List.mem_map.mp hnames))) hn

/-- A name is that of an own field exactly if it was before. -/
theorem hasField_back (hname : name ∈ e.mentioned) :
    (e.mapNames g).hasField (g name) = e.hasField name := by
  rw [Bool.eq_iff_iff, hasField_iff, hasField_iff, fieldNames_mapNames, List.mem_map]
  constructor
  · rintro ⟨n, hn, heq⟩
    rwa [← hback name hname, ← heq, hback n (fieldName_mentioned hn)]
  · exact fun h => ⟨name, h, rfl⟩

theorem owned_back : (e.mapNames g).nameLists.map (List.map (e.mapNames g).hasField) =
    e.nameLists.map (List.map e.hasField) := by
  rw [nameLists_mapNames, List.map_map]
  refine List.map_congr_left fun names hnames => ?_
  rw [Function.comp_apply, List.map_map]
  exact List.map_congr_left fun n hn => hasField_back hback (mem_mentioned_of_mem hnames hn)

end Back

/-! ### One name for another -/

theorem rename_rename (h : name ≠ new) : rename new old (rename old new name) = name := by
  unfold rename
  by_cases hname : name = old
  · rw [if_pos hname, if_pos rfl, hname]
  · rw [if_neg hname, if_neg h]

/-- The old name is gone. -/
theorem rename_ne (h : name ≠ new) : rename old new name ≠ old := by
  unfold rename
  split
  · next hname => exact fun heq => h (hname.trans heq.symm)
  · next hname => exact hname

/-- When fields have different names, the new name is put for the old one everywhere. -/
theorem renameField_eq (hnodup : (e.fields.map (·.name)).Nodup) :
    e.renameField old new = e.mapNames (rename old new) := by
  have hfields : changeFirst (·.name = old) (fun f => { f with name := new }) e.fields =
      e.fields.map fun f => { f with name := rename old new f.name } := by
    rw [changeFirst_eq_map hnodup]
    refine List.map_congr_left fun f _ => ?_
    unfold rename
    split <;> rfl
  unfold renameField mapNames
  rw [hfields]

/-- What renaming makes of an entity that did not mention the new name. -/
structure Renamed (old new : String) (e e' : Entity) : Prop where
  /-- The new name stands where the old one stood, and all else is as it was. -/
  replaced : e' = e.mapNames (rename old new)
  fieldNames : (e'.fields.map (·.name)).Nodup
  keyLists : (e'.keys.map (·.fields)).Nodup
  gone : old ∉ e'.mentioned
  /-- Place by place, the lists name own fields where they did before. -/
  owned : e'.nameLists.map (List.map e'.hasField) = e.nameLists.map (List.map e.hasField)
  restored : e'.renameField new old = e

/-- Renaming to a name that the entity does not mention puts it for the old one and changes
nothing else. Fields and keys stay different, no list gains or loses an own field, and
renaming back undoes it; the old name need not be that of a field. -/
theorem renameField_fresh (hfields : (e.fields.map (·.name)).Nodup)
    (hkeys : (e.keys.map (·.fields)).Nodup) (hnew : new ∉ e.mentioned) :
    Renamed old new e (e.renameField old new) := by
  have hother : ∀ n ∈ e.mentioned, n ≠ new := fun n hn heq => hnew (heq ▸ hn)
  have hback : ∀ n ∈ e.mentioned, rename new old (rename old new n) = n := fun n hn =>
    rename_rename (hother n hn)
  have hnames := fieldNames_back hback hfields
  rw [renameField_eq hfields]
  refine ⟨rfl, hnames, keyLists_back hback hkeys, fun hold => ?_, owned_back hback, ?_⟩
  · rw [mentioned_mapNames] at hold
    obtain ⟨n, hn, heq⟩ := List.mem_map.mp hold
    exact rename_ne (hother n hn) heq
  · rw [renameField_eq hnames, mapNames_back hback]

/-- Squads have a key in which a field stands twice, and an index and labels over a field that
is not their own. -/
def squad : Entity :=
  { Entity.named "Squad" with
    fields := [Field.named "id" .int, Field.named "Team" (.string 20), Field.named "season" .int]
    keys := [⟨["id"], false, none⟩, ⟨["Team", "season", "Team"], true, none⟩]
    indices := [⟨"teams", ["Team", "Club"]⟩]
    labels := some ["Club", "Team"] }

theorem squad_renamed : (squad.fields.map (·.name)).Nodup ∧ (squad.keys.map (·.fields)).Nodup ∧
    "side" ∉ squad.mentioned ∧ Renamed "Team" "side" squad (squad.renameField "Team" "side") ∧
    Renamed "Club" "side" squad (squad.renameField "Club" "side") := by
  have hfields : (squad.fields.map (·.name)).Nodup := by decide
  have hkeys : (squad.keys.map (·.fields)).Nodup := by decide
  have hnew : "side" ∉ squad.mentioned := by decide
  exact ⟨hfields, hkeys, hnew, renameField_fresh hfields hkeys hnew,
    renameField_fresh hfields hkeys hnew⟩

end Entity

end EntitySchema
