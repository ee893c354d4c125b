import EntitySchema.Proofs.Documents
import EntitySchema.Proofs.ListEntries

/-! What readers of a model may rely on when its documents have been read. No name is
taken twice where names tell things apart; keys, indices and enumerations are not empty,
and views are of two entities at least; a hidden field is filled in by something. The
modules list the entities that say they stand in them, each once, and no others. -/

namespace EntitySchema

variable {d d' : Draft} {u : Unit}

/-! ### What is regular -/

/-- Options are given, and something fills in a hidden field. -/
structure Field.Regular (f : Field) : Prop where
  options : ∀ options, f.type = .enum options →
    options ≠ [] ∧ ∀ option ∈ options, Text.IsTrimmed option
  hidden : f.hidden = true → f.nillable = true ∨ f.auto = true ∨ f.defaultValue ≠ ""

structure Entity.Regular (e : Entity) : Prop where
  fieldNames : (e.fields.map (·.name)).Nodup
  keyLists : (e.keys.map (·.fields)).Nodup
  indexNames : (e.indices.map (·.name)).Nodup
  keys : ∀ key ∈ e.keys, key.fields ≠ []
  indices : ∀ index ∈ e.indices, index.fields ≠ [] ∧ index.fields.Nodup ∧
    ∀ name ∈ index.fields, e.hasField name = true
  fields : ∀ f ∈ e.fields, f.Regular

/-- One module of the model has this name, and it lists the entity once. -/
def Model.ListsOnce (m : Model) (path entity : String) : Prop :=
  ∃ module, m.modules.filter (·.name = path) = [module] ∧ module.entities.count entity = 1

structure Model.Regular (m : Model) : Prop where
  entityNames : m.entityNames.Nodup
  entities : m.All Entity.Regular
  methodNames : (m.methods.map (·.name)).Nodup
  parameters : ∀ method ∈ m.methods, (method.parameters.map (·.name)).Nodup
  moduleNames : (m.modules.map (·.name)).Nodup
  views : ∀ view ∈ m.views, 2 ≤ view.entities.length ∧ view.entities.Nodup
  placed : ∀ e ∈ m.entities, ∀ path, e.module = some path ↔ m.ListsOnce path e.name
  listed : ∀ module ∈ m.modules, ∀ name ∈ module.entities, m.hasEntity name = true
  loose : ∀ e ∈ m.entities, e.module = none → ∀ module ∈ m.modules, e.name ∉ module.entities

/-- A list stays without repetition when a new item is put behind it. -/
theorem nodup_map_concat {α β : Type} {g : α → β} {xs : List α} {x : α} (h : (xs.map g).Nodup)
    (hnew : ∀ y ∈ xs, g y ≠ g x) : ((xs ++ [x]).map g).Nodup := by
  rw [List.map_append]
  refine h.append (by simp) fun b hb hx => ?_
  obtain ⟨y, hy, rfl⟩ := List.mem_map.mp hb
  exact hnew y hy (List.mem_singleton.mp hx)

/-! ### Entities -/

namespace Entity

/-- What an entity that is read has besides: no two keys over the same fields, indices that
name fields, each once, and regular fields. -/
structure Formed (e : Entity) : Prop where
  keyLists : (e.keys.map (·.fields)).Nodup
  indexLists : ∀ index ∈ e.indices, index.fields ≠ [] ∧ index.fields.Nodup
  fields : ∀ f ∈ e.fields, f.Regular

variable {e e' : Entity} {f : Field} {key : Key} {index : Index}

theorem AsRead.regular (h : e.AsRead) (hformed : e.Formed) : e.Regular where
  fieldNames := h.fields
  keyLists := hformed.keyLists
  indexNames := h.indices
  keys := h.keys
  indices := fun index hindex =>
    ⟨(hformed.indexLists index hindex).1, (hformed.indexLists index hindex).2,
      h.ownsIndices index hindex⟩
  fields := hformed.fields

/-- A step of reading an entity: it stays where it stands, and well formed. -/
structure Builds (e e' : Entity) : Prop where
  module : e'.module = e.module
  formed : e.Formed → e'.Formed

namespace Builds

theorem refl (e : Entity) : e.Builds e := ⟨rfl, id⟩

theorem trans {e₁ : Entity} (h : e.Builds e₁) (h₁ : e₁.Builds e') : e.Builds e' :=
  ⟨h₁.module.trans h.module, h₁.formed ∘ h.formed⟩

theorem addField (hf : f.Regular) (hadd : e.addField f = .ok e') : e.Builds e' := by
  obtain ⟨_, rfl⟩ := Link.addField_ok hadd
  refine ⟨rfl, fun h => ⟨h.keyLists, h.indexLists, fun g hg => ?_⟩⟩
  rcases List.mem_append.mp hg with hg | hg
  · exact h.fields g hg
  · exact List.mem_singleton.mp hg ▸ hf

theorem addKey (hadd : e.addKey key = .ok e') : e.Builds e' := by
  obtain ⟨hnew, rfl⟩ := Link.addKey_ok hadd
  have hnew : ∀ k ∈ e.keys, k.fields ≠ key.fields := by simpa [hasKey] using hnew
  exact ⟨rfl, fun h => ⟨nodup_map_concat h.keyLists hnew, h.indexLists, h.fields⟩⟩

theorem addIndex (hnonempty : index.fields ≠ []) (hnodup : index.fields.Nodup) :
    e.Builds (e.addIndex index) := by
  unfold Entity.addIndex
  split
  · exact refl e
  · refine ⟨rfl, fun h => ⟨h.keyLists, fun i hi => ?_, h.fields⟩⟩
    rcases List.mem_append.mp hi with hi | hi
    · exact h.indexLists i hi
    · exact List.mem_singleton.mp hi ▸ ⟨hnonempty, hnodup⟩

/-- Steps one after the other are a step. -/
theorem foldlM {ε α : Type} {step : Entity → α → Except ε Entity} {xs : List α}
    (hstep : ∀ x ∈ xs, ∀ e e', step e x = .ok e' → e.Builds e')
    (h : xs.foldlM step e = .ok e') : e.Builds e' :=
  Except.foldlM_ok (fun e' => e.Builds e') (fun x hx e₁ e₂ h₂ h₁ => h₁.trans (hstep x hx e₁ e₂ h₂))
    h (refl e)

end Builds

end Entity

open Entity (Formed Builds)

namespace Schema

section Entities

variable {e e' : Entity} {x : Xml.Element} {noted noted' : List Warning} {m : Model}

/-- Only an enumeration has options, and its reader makes sure of them. -/
theorem readType_options {owner : String} {type : TypeName} {options : List String}
    (h : readType x owner type = .ok (.enum options)) :
    options ≠ [] ∧ ∀ option ∈ options, Text.IsTrimmed option := by
  have hread : readOptions x owner = .ok options := by
    unfold readType at h
    cases type with
    | enum =>
      obtain ⟨read, hread, h⟩ := Except.bind_ok h
      cases h
      exact hread
    | string | xref | mref =>
      obtain ⟨_, _, h⟩ := Except.bind_ok h
      cases h
    | _ => cases h
  unfold readOptions at hread
  dsimp only at hread
  split at hread
  · cases hread
  · next hnonempty =>
    obtain rfl := Except.ok.inj hread
    exact ⟨hnonempty, fun option hoption =>
      (Text.isEntry_of_mem_splitList hoption).trimmed⟩

/-- A hidden field that is not stranded is filled in by something. -/
theorem regular_of_not_stranded {f : Field} (h : ¬isStranded f = true)
    (hoptions : ∀ options, f.type = .enum options →
      options ≠ [] ∧ ∀ option ∈ options, Text.IsTrimmed option) : f.Regular := by
  refine ⟨hoptions, fun hhidden => ?_⟩
  by_contra hnone
  obtain ⟨hnillable, hauto, hdefault⟩ : f.nillable = false ∧ f.auto = false ∧
      f.defaultValue = "" := by simpa using hnone
  exact h (by simp [isStranded, hhidden, hnillable, hauto, hdefault])

theorem addField_builds (h : Ends (addField e x) noted e' noted') : e.Builds e' := by
  unfold addField at h
  obtain ⟨name, _, h⟩ := h.lift_bind
  obtain ⟨_, _, h⟩ := h.lift_bind
  obtain ⟨typeName, _, h⟩ := h.lift_bind
  split at h
  · next declared _ =>
    obtain ⟨type, htype, h⟩ := h.lift_bind
    obtain ⟨filter, n₁, _, h⟩ := h.bind
    obtain ⟨hstranded, h⟩ := h.guard
    obtain ⟨e₁, hadd, h⟩ := h.lift_bind
    have hfield := regular_of_not_stranded hstranded fun options htyped => by
      obtain rfl : type = .enum options := htyped
      exact readType_options (Except.mapError_ok (g := Failure.schema) htype)
    have he₁ := Builds.addField hfield (Except.mapError_ok (g := Failure.duplicate) hadd)
    have hindexed : e.Builds (if x.flag "index" then
        e₁.addIndex ⟨Text.trim name, [Text.trim name]⟩ else e₁) := by
      split
      · exact he₁.trans (.addIndex (by simp) (List.nodup_singleton _))
      · exact he₁
    dsimp only at h
    split at h
    · have hkey := Except.mapError_ok (g := Failure.duplicate) (Ends.lift h).1
      exact hindexed.trans (.addKey hkey)
    · obtain ⟨rfl, -⟩ := h.pure
      exact hindexed
  · exact h.throw.elim

/-- A field that the entity inherits is a field of an entity of the model. -/
theorem inheritedField?_mem {name : String} {f : Field} (h : inheritedField? m e name = some f) :
    ∃ above ∈ m.entities, f ∈ above.fields := by
  obtain ⟨above, -, hvisible⟩ := List.exists_of_findSome?_eq_some h
  obtain ⟨owner, howner, hf⟩ := Model.mem_allFields (List.mem_of_find?_eq_some hvisible)
  exact ⟨owner, Model.entity?_mem (Model.mem_lineage.mp howner).1, hf⟩

/-- The field that a key brings in is a copy of a regular one. -/
theorem addKeyField_builds {name : String} (hm : m.All Formed)
    (h : addKeyField m e name = .ok e') : e.Builds e' := by
  unfold addKeyField at h
  split at h
  · cases h
    exact .refl e
  · split at h
    · cases h
    · next f hf =>
      obtain ⟨above, habove, hf⟩ := inheritedField?_mem hf
      obtain ⟨hoptions, hhidden⟩ := (hm above habove).fields f hf
      have hcopy : ({ f with system := true, origin := .constraintCopy } : Field).Regular :=
        ⟨hoptions, hhidden⟩
      exact .addField hcopy (Except.mapError_ok (g := Failure.duplicate) h)

theorem addKey_builds (hm : m.All Formed) (h : addKey m e x = .ok e') : e.Builds e' := by
  obtain ⟨_, _, h⟩ := Except.bind_ok h
  obtain ⟨e₁, hlisted, h⟩ := Except.bind_ok h
  obtain ⟨inside, _, h⟩ := Except.bind_ok h
  obtain ⟨_, h⟩ := Except.guard_ok h
  have he₁ : e.Builds e₁ := .foldlM (fun _ _ _ _ => addKeyField_builds hm) hlisted
  exact he₁.trans (.addKey (Except.mapError_ok (g := Failure.duplicate) h))

theorem addIndexField_nodup {index : String} {fields fields' : List String}
    (h : addIndexField e index fields x = .ok fields') (hfields : fields.Nodup) :
    fields'.Nodup := by
  unfold addIndexField at h
  split at h
  · next name _ =>
    obtain ⟨_, h⟩ := Except.guard_ok h
    obtain ⟨hnew, h⟩ := Except.guard_ok h
    cases h
    have hnew : name ∉ fields := by simpa using hnew
    refine hfields.append (List.nodup_singleton _) fun other hother hname => ?_
    exact hnew (List.mem_singleton.mp hname ▸ hother)
  · cases h

theorem addIndex_builds (h : addIndex e x = .ok e') : e.Builds e' := by
  obtain ⟨name, _, h⟩ := Except.bind_ok h
  obtain ⟨fields, hfields, h⟩ := Except.bind_ok h
  obtain ⟨hnonempty, h⟩ := Except.guard_ok h
  cases h
  have hnodup : fields.Nodup := Except.foldlM_ok List.Nodup
    (fun _ _ _ _ hstep hfields => addIndexField_nodup hstep hfields) hfields .nil
  exact .addIndex (by simpa using hnonempty) hnodup

theorem addIndices_builds (h : addIndices e x = .ok e') : e.Builds e' := by
  unfold addIndices at h
  split at h
  · cases h
    exact .refl e
  · exact Builds.foldlM (fun _ _ _ _ => addIndex_builds) h
  · cases h

/-- An entity is read well formed, and it stands where it is read. -/
theorem readEntity_formed {module : Option String} (hm : m.All Formed)
    (h : Ends (readEntity x module m) noted e noted') : e.Formed ∧ e.module = module := by
  obtain ⟨plain, hplain, h⟩ := h.lift_bind
  obtain ⟨e₁, n₁, hfields, h⟩ := h.bind
  obtain ⟨e₂, hkeys, h⟩ := h.lift_bind
  obtain ⟨e₃, hindices, h⟩ := h.lift_bind
  obtain ⟨_, n₂, _, h⟩ := h.bind
  obtain ⟨rfl, rfl⟩ := h.pure
  have hplain : plain.Formed ∧ plain.module = module := by
    obtain ⟨name, _, hplain⟩ := Except.bind_ok hplain
    obtain ⟨_, _, hplain⟩ := Except.bind_ok hplain
    obtain ⟨size, _, hplain⟩ := Except.bind_ok hplain
    cases hplain
    exact ⟨⟨.nil, by simp, by simp⟩, rfl⟩
  have he₁ : plain.Builds e₁ := hfields.foldlM_keeps (fun e _ => plain.Builds e)
    (fun _ _ _ _ _ _ hstep h => h.trans (addField_builds hstep)) (.refl plain)
  have he₂ : e₁.Builds e₂ := .foldlM (fun _ _ _ _ => addKey_builds hm) hkeys
  have he₃ := addIndices_builds (Except.mapError_ok (g := Failure.schema) hindices)
  have hbuilt := (he₁.trans he₂).trans he₃
  exact ⟨hbuilt.formed hplain.1, hbuilt.module.trans hplain.2⟩

end Entities

/-! ### Views and methods -/

section Queries

variable {x : Xml.Element} {noted noted' : List Warning}

theorem firstRepeated_none : ∀ {names seen : List String}, firstRepeated seen names = none →
    names.Nodup ∧ ∀ name ∈ names, name ∉ seen
  | [], _, _ => ⟨.nil, by simp⟩
  | name :: rest, seen, h => by
    unfold firstRepeated at h
    split at h
    · cases h
    · next hnew =>
      obtain ⟨hnodup, hrest⟩ := firstRepeated_none h
      have hnew : name ∉ seen := by simpa using hnew
      constructor
      · refine List.nodup_cons.mpr ⟨fun hmem => ?_, hnodup⟩
        exact hrest name hmem (List.mem_append_right _ (List.mem_singleton_self _))
      · intro other hother
        rcases List.mem_cons.mp hother with rfl | hother
        · exact hnew
        · exact fun hmem => hrest other hother (List.mem_append_left _ hmem)

theorem readView_ok {view : View} (h : readView x = .ok view) :
    2 ≤ view.entities.length ∧ view.entities.Nodup := by
  obtain ⟨name, _, h⟩ := Except.bind_ok h
  obtain ⟨_, _, h⟩ := Except.bind_ok h
  obtain ⟨hlength, h⟩ := Except.guard_ok h
  split at h
  · cases h
  · next hnone =>
    cases h
    have hnone := Option.eq_none_iff_forall_ne_some.mpr hnone
    exact ⟨Nat.le_of_not_lt hlength, (firstRepeated_none hnone).1⟩

theorem addToMethod_parameters {method method' : Method}
    (h : Ends (addToMethod method x) noted method' noted')
    (hmethod : (method.parameters.map (·.name)).Nodup) :
    (method'.parameters.map (·.name)).Nodup := by
  unfold addToMethod at h
  split at h
  · obtain ⟨rfl, -⟩ := h.pure
    exact hmethod
  · obtain ⟨parameter, _, h⟩ := h.lift_bind
    obtain ⟨hnew, h⟩ := h.guard
    obtain ⟨rfl, -⟩ := h.pure
    refine nodup_map_concat hmethod ?_
    simpa using hnew
  · obtain ⟨_, _, h⟩ := h.lift_bind
    obtain ⟨type, _, h⟩ := h.lift_bind
    obtain ⟨rfl, -⟩ := h.pure
    exact hmethod
  · obtain ⟨query, _, h⟩ := h.lift_bind
    obtain ⟨rfl, -⟩ := h.pure
    exact hmethod
  · obtain ⟨_, _, _, h⟩ := h.bind
    obtain ⟨rfl, -⟩ := h.pure
    exact hmethod

theorem readMethod_parameters {method : Method} (h : Ends (readMethod x) noted method noted') :
    (method.parameters.map (·.name)).Nodup := by
  unfold readMethod at h
  obtain ⟨name, _, h⟩ := h.lift_bind
  obtain ⟨_, _, h⟩ := h.lift_bind
  exact h.foldlM_keeps (fun method _ => (method.parameters.map (·.name)).Nodup)
    (fun _ _ _ _ _ _ => addToMethod_parameters) .nil

end Queries

end Schema

/-! ### Modules and their entities -/

/-- The module with an entity on its list, if that says that it stands there. -/
def Module.enter (e : Entity) (module : Module) : Module :=
  if e.module = some module.name then { module with entities := module.entities ++ [e.name] }
  else module

theorem Module.enter_name (e : Entity) (module : Module) :
    (Module.enter e module).name = module.name := by
  unfold enter
  split <;> rfl

theorem Module.count_enter {e : Entity} {module : Module} (name : String) :
    (Module.enter e module).entities.count name = module.entities.count name +
      if e.module = some module.name ∧ e.name = name then 1 else 0 := by
  unfold enter
  by_cases hhere : e.module = some module.name
  · by_cases hname : e.name = name <;> simp [hhere, hname, List.count_append]
  · simp [hhere]

namespace Model

/-- The lists of modules agree with what the entities say. -/
structure Arranged (m : Model) : Prop where
  moduleNames : (m.modules.map (·.name)).Nodup
  listed : ∀ module ∈ m.modules, ∀ name ∈ module.entities, m.hasEntity name = true
  counted : ∀ e ∈ m.entities, ∀ module ∈ m.modules,
    module.entities.count e.name = if e.module = some module.name then 1 else 0
  housed : ∀ e ∈ m.entities, ∀ path, e.module = some path → path ∈ m.modules.map (·.name)

variable {m m' : Model} {e : Entity} {module : Module}

/-- Only the names of modules and their lists count. -/
theorem Arranged.of_same (h : m.Arranged) (hentities : m'.entities = m.entities)
    (hnames : m'.modules.map (·.name) = m.modules.map (·.name))
    (hmodules : ∀ module' ∈ m'.modules, ∃ module ∈ m.modules,
      module'.name = module.name ∧ module'.entities = module.entities) : m'.Arranged := by
  constructor
  · rw [hnames]
    exact h.moduleNames
  · intro module' hmodule' name hname
    obtain ⟨module, hmodule, -, hlist⟩ := hmodules module' hmodule'
    unfold hasEntity
    rw [hentities]
    exact h.listed module hmodule name (hlist ▸ hname)
  · intro e he module' hmodule'
    obtain ⟨module, hmodule, hname, hlist⟩ := hmodules module' hmodule'
    rw [hname, hlist]
    exact h.counted e (hentities ▸ he) module hmodule
  · intro e he path hpath
    rw [hnames]
    exact h.housed e (hentities ▸ he) path hpath

/-- A new entity is entered into the list of its module. -/
theorem Arranged.enter (h : m.Arranged) (hnew : m.hasEntity e.name = false)
    (hhoused : ∀ path, e.module = some path → path ∈ m.modules.map (·.name)) :
    { m with
      entities := m.entities ++ [e]
      modules := m.modules.map (Module.enter e) }.Arranged := by
  have hnames : (m.modules.map (Module.enter e)).map (·.name) = m.modules.map (·.name) := by
    simp [Module.enter_name]
  have habsent : ∀ x ∈ m.entities, e.name ≠ x.name := by
    intro x hx hname
    have hfound : m.hasEntity e.name = true := List.any_eq_true.mpr ⟨x, hx, by simp [hname]⟩
    rw [hnew] at hfound
    cases hfound
  constructor
  · rw [hnames]
    exact h.moduleNames
  · intro module' hmodule' name hname
    obtain ⟨module, hmodule, rfl⟩ := List.mem_map.mp hmodule'
    have hcount := List.count_pos_iff.mpr hname
    rw [Module.count_enter] at hcount
    by_cases hlisted : name ∈ module.entities
    · have hfound := h.listed module hmodule name hlisted
      simp [hasEntity, List.any_append] at hfound ⊢
      exact .inl hfound
    · rw [List.count_eq_zero.mpr hlisted] at hcount
      have hadded : e.name = name := by
        by_contra hother
        simp [hother] at hcount
      simp [hasEntity, hadded]
  · intro x hx module' hmodule'
    obtain ⟨module, hmodule, rfl⟩ := List.mem_map.mp hmodule'
    rw [Module.count_enter, Module.enter_name]
    rcases List.mem_append.mp hx with hx | hx
    · have hother := habsent x hx
      simp [h.counted x hx module hmodule, hother]
    · obtain rfl := List.mem_singleton.mp hx
      have hunlisted : x.name ∉ module.entities := fun hmem => by
        have hfound := h.listed module hmodule x.name hmem
        rw [hnew] at hfound
        cases hfound
      simp [List.count_eq_zero.mpr hunlisted]
  · intro x hx path hpath
    rw [hnames]
    rcases List.mem_append.mp hx with hx | hx
    · exact h.housed x hx path hpath
    · exact hhoused path (List.mem_singleton.mp hx ▸ hpath)

/-- The model as it is when the module that is being read is closed. -/
def closing (m : Model) (module : Module) : Model := { m with modules := m.modules ++ [module] }

/-- A module begins with no entities; none stands in it yet. -/
theorem Arranged.begin (h : m.Arranged) (hnew : module.name ∉ m.modules.map (·.name))
    (hempty : module.entities = []) : (m.closing module).Arranged := by
  have hmem : ∀ other, other ∈ (m.closing module).modules ↔ other ∈ m.modules ∨ other = module := by
    simp [closing]
  constructor
  · refine nodup_map_concat h.moduleNames fun other hother hname => ?_
    exact hnew (hname ▸ List.mem_map_of_mem hother)
  · intro other hother name hname
    rcases (hmem other).mp hother with hother | rfl
    · exact h.listed other hother name hname
    · rw [hempty] at hname
      cases hname
  · intro x hx other hother
    rcases (hmem other).mp hother with hother | rfl
    · exact h.counted x hx other hother
    · have helsewhere : x.module ≠ some other.name := fun hpath => hnew (h.housed x hx _ hpath)
      simp [hempty, helsewhere]
  · intro x hx path hpath
    have hpath := h.housed x hx path hpath
    rw [closing, List.map_append]
    exact List.mem_append_left _ hpath

/-! ### Models -/

/-- What a model that is read has besides entities of different names, each as it is read. -/
structure Formed (m : Model) : Prop where
  entities : m.All Entity.Formed
  methodNames : (m.methods.map (·.name)).Nodup
  parameters : ∀ method ∈ m.methods, (method.parameters.map (·.name)).Nodup
  views : ∀ view ∈ m.views, 2 ≤ view.entities.length ∧ view.entities.Nodup
  arranged : m.Arranged

/-- The name, the label, the description and the screens of a model do not count. -/
theorem Formed.of_same (h : m.Formed) (hentities : m'.entities = m.entities)
    (hmethods : m'.methods = m.methods) (hviews : m'.views = m.views)
    (hmodules : m'.modules = m.modules) : m'.Formed where
  entities := h.entities.of_eq hentities
  methodNames := hmethods ▸ h.methodNames
  parameters := hmethods ▸ h.parameters
  views := hviews ▸ h.views
  arranged := h.arranged.of_same hentities (by rw [hmodules])
    fun module hmodule => ⟨module, hmodules ▸ hmodule, rfl, rfl⟩

/-- Nor does the description of the module that is being read. -/
theorem Formed.describe (h : (m.closing module).Formed) (description : Option String) :
    (m.closing { module with description }).Formed where
  entities := h.entities
  methodNames := h.methodNames
  parameters := h.parameters
  views := h.views
  arranged := by
    refine h.arranged.of_same rfl (by simp [closing]) fun module' hmodule' => ?_
    rcases List.mem_append.mp hmodule' with hmodule' | hmodule'
    · exact ⟨module', List.mem_append_left _ hmodule', rfl, rfl⟩
    · obtain rfl := List.mem_singleton.mp hmodule'
      exact ⟨module, List.mem_append_right _ (List.mem_singleton_self _), rfl, rfl⟩

/-- One of the modules has the name, and no other. -/
theorem filter_modules (h : m.Arranged) (hmodule : module ∈ m.modules) :
    m.modules.filter (·.name = module.name) = [module] := by
  have hfilter : ∀ modules : List Module, (modules.map (·.name)).Nodup → module ∈ modules →
      modules.filter (·.name = module.name) = [module] := by
    intro modules hnodup hmem
    induction modules with
    | nil => cases hmem
    | cons first rest ih =>
      obtain ⟨hfirst, hrest⟩ := List.nodup_cons.mp hnodup
      rcases List.mem_cons.mp hmem with rfl | hmem
      · have hothers : rest.filter (·.name = module.name) = [] := by
          rw [List.filter_eq_nil_iff]
          intro other hother hname
          exact hfirst (List.mem_map.mpr ⟨other, hother, of_decide_eq_true hname⟩)
        rw [List.filter_cons_of_pos (by simp), hothers]
      · have hname : first.name ≠ module.name := fun hname =>
          hfirst (List.mem_map.mpr ⟨module, hmem, hname.symm⟩)
        rw [List.filter_cons_of_neg (by simpa using hname)]
        exact ih hrest hmem
  exact hfilter m.modules h.moduleNames hmodule

/-- An entity says that it stands in a module when that lists it once, and only then. -/
theorem Arranged.listsOnce_iff (h : m.Arranged) (he : e ∈ m.entities) (path : String) :
    e.module = some path ↔ m.ListsOnce path e.name := by
  constructor
  · intro hpath
    obtain ⟨module, hmodule, rfl⟩ := List.mem_map.mp (h.housed e he path hpath)
    refine ⟨module, filter_modules h hmodule, ?_⟩
    rw [h.counted e he module hmodule, if_pos hpath]
  · rintro ⟨module, hfilter, hcount⟩
    have hmem : module ∈ m.modules.filter (·.name = path) := by simp [hfilter]
    obtain ⟨hmodule, hname⟩ := List.mem_filter.mp hmem
    obtain rfl : module.name = path := by simpa using hname
    rw [h.counted e he module hmodule] at hcount
    by_contra hpath
    rw [if_neg hpath] at hcount
    cases hcount

theorem Formed.regular (h : m.Formed) (hread : m.AsRead) : m.Regular where
  entityNames := hread.names
  entities := fun e he => (hread.entities e he).regular (h.entities e he)
  methodNames := h.methodNames
  parameters := h.parameters
  moduleNames := h.arranged.moduleNames
  views := h.views
  placed := fun e he path => h.arranged.listsOnce_iff he path
  listed := h.arranged.listed
  loose := fun e he hnone module hmodule hmem => by
    have hcount := h.arranged.counted e he module hmodule
    rw [hnone, if_neg (by simp)] at hcount
    exact List.count_eq_zero.mp hcount hmem

/-- A new entity joins a model at the place that it names. -/
theorem Formed.enter (h : m.Formed) (he : e.Formed) (hnew : m.hasEntity e.name = false)
    (hhoused : ∀ path, e.module = some path → path ∈ m.modules.map (·.name)) :
    { m with entities := m.entities ++ [e], modules := m.modules.map (Module.enter e) }.Formed where
  entities := fun x hx => by
    rcases List.mem_append.mp hx with hx | hx
    · exact h.entities x hx
    · exact List.mem_singleton.mp hx ▸ he
  methodNames := h.methodNames
  parameters := h.parameters
  views := h.views
  arranged := h.arranged.enter hnew hhoused

/-- An entity outside of modules. -/
theorem Formed.addEntity (h : m.Formed) (he : e.Formed) (hnone : e.module = none)
    (hadd : m.addEntity e = .ok m') : m'.Formed := by
  obtain ⟨hnew, rfl⟩ := addEntity_ok hadd
  have hsame : m.modules.map (Module.enter e) = m.modules := by
    have hkeep : Module.enter e = id := by
      funext module
      simp [Module.enter, hnone]
    rw [hkeep, List.map_id]
  have hentered := h.enter he hnew (by simp [hnone])
  rwa [hsame] at hentered

/-- An entity of the module that is being read is put on its list. -/
theorem Formed.addEntity_closing (h : (m.closing module).Formed) (he : e.Formed)
    (hmodule : e.module = some module.name) (hadd : m.addEntity e = .ok m') :
    (m'.closing { module with entities := module.entities ++ [e.name] }).Formed := by
  obtain ⟨hnew, rfl⟩ := addEntity_ok hadd
  have hothers : m.modules.map (Module.enter e) = m.modules := by
    refine (List.map_congr_left fun other hother => ?_).trans (List.map_id _)
    have hnodup : ((m.modules ++ [module]).map (·.name)).Nodup := h.arranged.moduleNames
    rw [List.map_append, List.nodup_append] at hnodup
    have hname := hnodup.2.2 _ (List.mem_map_of_mem hother) _ (List.mem_singleton_self module.name)
    simp [Module.enter, hmodule, hname.symm]
  have hlast : Module.enter e module =
      { module with entities := module.entities ++ [e.name] } := by
    simp [Module.enter, hmodule]
  have hentered := h.enter he hnew (by simp [hmodule, closing])
  rwa [closing, List.map_append, hothers, List.map_singleton, hlast] at hentered

end Model

/-! ### Documents -/

/-- What is read leaves a model well formed. -/
def Draft.KeepsFormed (d d' : Draft) : Prop := d.model.Formed → d'.model.Formed

open Draft (KeepsFormed)

namespace Schema

variable {x : Xml.Element}

theorem addToModule_formed {module module' : Module}
    (h : Ends (addToModule module x) d module' d') (hd : (d.model.closing module).Formed) :
    (d'.model.closing module').Formed := by
  unfold addToModule at h
  split at h
  · obtain ⟨e, d₁, hread, h⟩ := h.bind
    obtain ⟨_, d₂, hadd, h⟩ := h.bind
    obtain ⟨rfl, rfl⟩ := h.pure
    obtain ⟨hmodel, hread⟩ := Reading.noting_ends hread
    have hadd := Except.mapError_ok (g := Failure.duplicate) (Reading.tryChange_ends hadd)
    rw [hmodel] at hadd
    have hentities : d.model.All Formed := hd.entities
    obtain ⟨he, hmodule⟩ := readEntity_formed hentities hread
    exact hd.addEntity_closing he hmodule hadd
  · obtain ⟨rfl, rfl⟩ := h.pure
    exact hd.describe _
  · obtain ⟨_, d₁, hnote, h⟩ := h.bind
    obtain ⟨rfl, rfl⟩ := h.pure
    rw [(Reading.noting_ends hnote).1]
    exact hd

/-- A module is closed when all of it has been read. -/
theorem readModule_formed (h : Ends (readModule x) d u d') : d.KeepsFormed d' := by
  intro hd
  unfold readModule at h
  obtain ⟨name, _, h⟩ := h.lift_bind
  obtain ⟨_, _, h⟩ := h.lift_bind
  obtain ⟨hnew, h⟩ := h.get_bind.guard
  obtain ⟨module, d₁, hchildren, h⟩ := h.bind
  have hnew : s!"{d.model.name}.{Text.trim name}" ∉ d.model.modules.map (·.name) := by
    simpa using hnew
  have hclosed : (d₁.model.closing module).Formed := by
    refine hchildren.foldlM_keeps (fun module d => (d.model.closing module).Formed)
      (fun _ _ _ _ _ _ => addToModule_formed) ?_
    exact ⟨hd.entities, hd.methodNames, hd.parameters, hd.views, hd.arranged.begin hnew rfl⟩
  rw [Reading.change_ends h]
  exact hclosed

theorem addDeclaration_formed (h : Ends (addDeclaration x) d u d') : d.KeepsFormed d' := by
  intro hd
  unfold addDeclaration at h
  split at h
  · obtain ⟨e, d₁, hread, h⟩ := h.bind
    obtain ⟨hmodel, hread⟩ := Reading.noting_ends hread
    have hadd := Except.mapError_ok (g := Failure.duplicate) (Reading.tryChange_ends h)
    rw [hmodel] at hadd
    obtain ⟨he, hmodule⟩ := readEntity_formed hd.entities hread
    exact hd.addEntity he hmodule hadd
  · exact readModule_formed h hd
  · obtain ⟨view, hview, h⟩ := h.lift_bind
    rw [Reading.change_ends h]
    have hview := readView_ok hview
    refine { hd with views := fun other hother => ?_, arranged := ?_ }
    · rcases List.mem_append.mp hother with hother | hother
      · exact hd.views other hother
      · exact List.mem_singleton.mp hother ▸ hview
    · exact hd.arranged.of_same rfl rfl fun module hmodule => ⟨module, hmodule, rfl, rfl⟩
  · obtain ⟨method, d₁, hread, h⟩ := h.bind
    obtain ⟨hmodel, hread⟩ := Reading.noting_ends hread
    obtain ⟨hnew, h⟩ := h.get_bind.guard
    rw [Reading.change_ends h, hmodel]
    rw [hmodel] at hnew
    have hnew : ∀ other ∈ d.model.methods, other.name ≠ method.name := by
      simpa [Model.method?] using hnew
    refine { hd with methodNames := ?_, parameters := fun other hother => ?_, arranged := ?_ }
    · exact nodup_map_concat hd.methodNames hnew
    · rcases List.mem_append.mp hother with hother | hother
      · exact hd.parameters other hother
      · exact List.mem_singleton.mp hother ▸ readMethod_parameters hread
    · exact hd.arranged.of_same rfl rfl fun module hmodule => ⟨module, hmodule, rfl, rfl⟩
  · rw [Reading.change_ends h]
    exact hd.of_same rfl rfl rfl rfl
  · rw [(Reading.noting_ends h).1]
    exact hd

theorem read_formed {text : String} (h : Ends (read text) d u d') : d.KeepsFormed d' := by
  intro hd
  unfold read at h
  obtain ⟨root, _, h⟩ := h.lift_bind
  obtain ⟨_, d₁, htitle, h⟩ := h.bind
  have hd₁ : d₁.model.Formed := by
    rw [Reading.change_ends htitle]
    unfold entitle
    dsimp only
    split <;> split <;> exact hd.of_same rfl rfl rfl rfl
  exact h.forM_keeps (fun d : Draft => d.model.Formed)
    (fun _ _ _ _ => addDeclaration_formed) hd₁

end Schema

namespace Compilation

theorem readSchemas_formed {schemas : List String}
    (h : Ends (readSchemas schemas) { model := .empty } u d) : d.model.Formed := by
  have hempty : Model.empty.Formed := by
    constructor <;> simp [Model.empty, Model.named, Model.All]
    constructor <;> simp
  exact h.forM_keeps (fun d : Draft => d.model.Formed) (fun _ _ _ _ => Schema.read_formed) hempty

/-- Whatever documents are read, one after the other, the model is regular. -/
theorem readSchemas_regular {schemas : List String}
    (h : Ends (readSchemas schemas) { model := .empty } u d) : d.model.Regular :=
  (readSchemas_formed h).regular (readSchemas_asRead h)

/-- A zoo in two documents: a module with an entity whose key copies a field of an interface
from the document before, an enumeration and a hidden field with an index. -/
def zoo : List String := [
  "<m name='zoo'><entity name='Named' abstract='true'><field name='name' type='string'/></entity>" ++
  "</m>",
  "<m><module name='animals'><entity name='Animal' implements='Named'>" ++
  "<field name='id' type='autoid'/><field name='kind' type='enum' enum_options='[cat, dog ]'/>" ++
  "<field name='rank' type='int' hidden='true' default='0' index='true'/>" ++
  "<unique fields='name, kind'/></entity></module></m>"]

theorem zoo_regular : ∃ d, Ends (readSchemas zoo) { model := .empty } () d ∧ d.model.Regular ∧
    ∃ animal ∈ d.model.entities, animal.fields.map (·.name) = ["id", "kind", "rank", "name"] ∧
      d.model.ListsOnce "zoo.animals" animal.name := by
  have hzoo : (match (readSchemas zoo).run { model := .empty } with
      | (.ok _, d) => decide (∃ animal ∈ d.model.entities, animal.module = some "zoo.animals" ∧
          animal.fields.map (·.name) = ["id", "kind", "rank", "name"])
      | (.error _, _) => false) = true := by
    decide +kernel
  rcases hread : (readSchemas zoo).run { model := .empty } with ⟨_ | _, d⟩
  · rw [hread] at hzoo
    cases hzoo
  · rw [hread] at hzoo
    obtain ⟨animal, hmem, hmodule, hfields⟩ := of_decide_eq_true hzoo
    have hregular := readSchemas_regular hread
    exact ⟨d, hread, hregular, animal, hmem, hfields, (hregular.placed animal hmem _).mp hmodule⟩

end Compilation

end EntitySchema
