import EntitySchema.Proofs.Lineage

/-! What stays of fields and entities from pass to pass. A field keeps its outline
when its reference is resolved, and its bearing when only the labels shown for it
change. An entity grows when it keeps its place in the hierarchy and loses neither
fields nor keys; whatever is visible in a model stays visible when it grows. -/

namespace EntitySchema

open Relation (ReflTransGen)

/-! ### Fields up to their references -/

/-- The type without what a reference points at. -/
def FieldType.outline : FieldType → FieldType
  | .xref _ => .xref { entity := "" }
  | .mref _ _ => .mref { entity := "" } {}
  | other => other

/-- The type without the labels and the columns of a reference. -/
def FieldType.bearing : FieldType → FieldType
  | .xref target => .xref { target with labels := [] }
  | .mref target _ => .mref { target with labels := [] } {}
  | other => other

namespace Field

/-- The field without what its reference points at. -/
def outline (f : Field) : Field := { f with type := f.type.outline }

/-- The field without the labels and the columns of its reference. -/
def bearing (f : Field) : Field := { f with type := f.type.bearing }

theorem outline_bearing (f : Field) : f.bearing.outline = f.outline := by
  rcases f with ⟨_, _, type⟩
  cases type <;> rfl

theorem outline_of_bearing {f f' : Field} (h : f'.bearing = f.bearing) :
    f'.outline = f.outline := by
  rw [← outline_bearing, h, outline_bearing]

variable {f f' : Field}

theorem name_of_outline (h : f'.outline = f.outline) : f'.name = f.name :=
  (congrArg Field.name h :)

theorem origin_of_outline (h : f'.outline = f.outline) : f'.origin = f.origin :=
  (congrArg Field.origin h :)

/-- Fields of the same outline are of the same kind. -/
theorem kind_of_outline (h : f'.outline = f.outline) : f'.type.name = f.type.name := by
  have hname : ∀ t : FieldType, t.outline.name = t.name := fun t => by cases t <;> rfl
  rw [← hname, ← hname f.type]
  exact congrArg (·.type.name) h

theorem isMref_of_outline (h : f'.outline = f.outline) : f'.isMref = f.isMref := by
  have hmref : ∀ t : FieldType, t.outline.isMref = t.isMref := fun t => by cases t <;> rfl
  unfold isMref
  rw [← hmref, ← hmref f.type]
  exact congrArg (·.type.isMref) h

theorem isMref_of_type {target : Target} {link : Link} (h : f.type = .mref target link) :
    f.isMref = true := by simp [isMref, h, FieldType.isMref]

theorem outline_withTarget (f : Field) (target : Target) :
    { f with type := f.type.withTarget target }.outline = f.outline := by
  rcases f with ⟨_, _, type⟩
  cases type <;> rfl

/-- Changing the labels that a reference shows leaves its bearing as it was. -/
theorem bearing_mapTarget (f : Field) {change : Target → Target}
    (h : ∀ t, { change t with labels := [] } = { t with labels := [] }) :
    { f with type := f.type.mapTarget change }.bearing = f.bearing := by
  rcases f with ⟨_, _, type⟩
  cases type <;> simp [bearing, FieldType.mapTarget, FieldType.bearing, h]

theorem bearing_mapLink (f : Field) (change : Link → Link) :
    { f with type := f.type.mapLink change }.bearing = f.bearing := by
  rcases f with ⟨_, _, type⟩
  cases type <;> rfl

theorem isMref_of_bearing (h : f'.bearing = f.bearing) : f'.isMref = f.isMref :=
  isMref_of_outline (outline_of_bearing h)

@[simp] theorem name_bearing (f : Field) : f.bearing.name = f.name := rfl

@[simp] theorem isMref_bearing (f : Field) : f.bearing.isMref = f.isMref :=
  isMref_of_outline (outline_bearing f)

@[simp] theorem targetEntity?_bearing (f : Field) : f.bearing.targetEntity? = f.targetEntity? := by
  rcases f with ⟨_, _, type⟩
  cases type <;> rfl

theorem targetEntity?_of_bearing (h : f'.bearing = f.bearing) :
    f'.targetEntity? = f.targetEntity? := by
  rw [← targetEntity?_bearing, h, targetEntity?_bearing]

/-- Fields of the same bearing point at the same field of the same entity. -/
theorem target?_of_bearing {t' : Target} (h : f'.bearing = f.bearing) (ht : f'.target? = some t') :
    ∃ t, f.target? = some t ∧ t.entity = t'.entity ∧ t.field = t'.field := by
  have htype : f'.type.bearing = f.type.bearing := congrArg Field.type h
  rcases f with ⟨_, _, type⟩
  rcases f' with ⟨_, _, type'⟩
  cases type <;> cases type' <;>
    simp_all [FieldType.bearing, target?, FieldType.target?]

end Field

/-! ### Entities from pass to pass -/

namespace Entity

/-- The same entity, if fields are taken for what `g` says of them. -/
def SameBy {α : Type} (g : Field → α) (e e' : Entity) : Prop :=
  e'.fields.map g = e.fields.map g ∧ { e' with fields := [] } = { e with fields := [] }

/-- The same entity up to what its references point at. -/
def SameOutline (e e' : Entity) : Prop :=
  e'.fields.map Field.outline = e.fields.map Field.outline ∧ { e' with fields := [] } =
    { e with fields := [] }

/-- The same entity up to the labels and columns of its references. -/
def SameBearing (e e' : Entity) : Prop :=
  e'.fields.map Field.bearing = e.fields.map Field.bearing ∧ { e' with fields := [] } =
    { e with fields := [] }

/-- The entity with more fields before and behind its own, and more keys before. -/
def Gains (e e' : Entity) : Prop :=
  ∃ front back keys, e' = { e with fields := front ++ e.fields ++ back, keys := keys ++ e.keys }

/-- The same entity as far as the hierarchy is concerned. -/
structure SameStanding (e e' : Entity) : Prop where
  name : e'.name = e.name
  isAbstract : e'.isAbstract = e.isAbstract
  parents : e'.parents = e.parents
  implements : e'.implements = e.implements

/-- The entity keeps its place in the hierarchy, its fields up to references, its
keys and its labels. -/
structure Grows (e e' : Entity) : Prop where
  name : e'.name = e.name
  isAbstract : e'.isAbstract = e.isAbstract
  parents : e.parents ⊆ e'.parents
  implements : e.implements ⊆ e'.implements
  fields : e.fields.map Field.outline ⊆ e'.fields.map Field.outline
  keys : e.keys ⊆ e'.keys
  labels : e'.labels = e.labels

theorem isChange_sameBy {α : Type} (g : Field → α) : IsChange (SameBy g) where
  refl _ := ⟨rfl, rfl⟩
  trans h₁ h₂ := ⟨h₂.1.trans h₁.1, h₂.2.trans h₁.2⟩
  name h := (congrArg Entity.name h.2 :)

theorem isChange_sameOutline : IsChange SameOutline := isChange_sameBy Field.outline

theorem isChange_sameBearing : IsChange SameBearing := isChange_sameBy Field.bearing

theorem isChange_gains : IsChange Gains where
  refl _ := ⟨[], [], [], by simp⟩
  trans := by
    rintro _ _ _ ⟨front, back, keys, rfl⟩ ⟨front', back', keys', rfl⟩
    exact ⟨front' ++ front, back ++ back', keys' ++ keys, by simp⟩
  name := by rintro _ _ ⟨_, _, _, rfl⟩; rfl

theorem isChange_sameStanding : IsChange SameStanding where
  refl _ := ⟨rfl, rfl, rfl, rfl⟩
  trans h₁ h₂ := ⟨h₂.name.trans h₁.name, h₂.isAbstract.trans h₁.isAbstract,
    h₂.parents.trans h₁.parents, h₂.implements.trans h₁.implements⟩
  name h := h.name

theorem isChange_grows : IsChange Grows where
  refl _ := ⟨rfl, rfl, List.Subset.refl _, List.Subset.refl _, List.Subset.refl _,
    List.Subset.refl _, rfl⟩
  trans h₁ h₂ := ⟨h₂.name.trans h₁.name, h₂.isAbstract.trans h₁.isAbstract,
    List.Subset.trans h₁.parents h₂.parents, List.Subset.trans h₁.implements h₂.implements,
    List.Subset.trans h₁.fields h₂.fields, List.Subset.trans h₁.keys h₂.keys,
    h₂.labels.trans h₁.labels⟩
  name h := h.name

variable {e e' : Entity}

section SameBy

variable {α β : Type} {g : Field → α} {k : Field → β}

/-- The fields correspond to each other, one by one. -/
theorem SameBy.forall₂ (h : SameBy g e e') :
    List.Forall₂ (fun f f' => g f' = g f) e.fields e'.fields := forall₂_of_map_eq h.1

/-- The fields of an entity are changed one by one. -/
theorem SameBy.of_forall₂ {fields : List Field}
    (h : List.Forall₂ (fun f f' => g f' = g f) e.fields fields) : SameBy g e { e with fields } :=
  ⟨map_eq_of_forall₂ (R := fun f f' => g f' = g f) (fun _ _ h => h) h, rfl⟩

theorem SameBy.mono (hk : ∀ f f', g f' = g f → k f' = k f) (h : SameBy g e e') : SameBy k e e' :=
  ⟨map_eq_of_forall₂ (R := fun f f' => g f' = g f) hk h.forall₂, h.2⟩

end SameBy

theorem SameBearing.sameOutline (h : SameBearing e e') : SameOutline e e' :=
  SameBy.mono (fun _ _ => Field.outline_of_bearing) h

theorem SameOutline.sameStanding (h : SameOutline e e') : SameStanding e e' :=
  ⟨(congrArg Entity.name h.2 :), (congrArg Entity.isAbstract h.2 :),
    (congrArg Entity.parents h.2 :), (congrArg Entity.implements h.2 :)⟩

theorem SameOutline.symm (h : SameOutline e e') : SameOutline e' e := ⟨h.1.symm, h.2.symm⟩

theorem SameOutline.forall₂ (h : SameOutline e e') :
    List.Forall₂ (fun f f' => f'.outline = f.outline) e.fields e'.fields := SameBy.forall₂ h

theorem SameOutline.fieldNames (h : SameOutline e e') :
    e'.fields.map (·.name) = e.fields.map (·.name) := by
  have hnames : ∀ fields : List Field, fields.map (·.name) =
      (fields.map Field.outline).map (·.name) := fun fields => by rw [List.map_map]; rfl
  rw [hnames, h.1, ← hnames]

theorem SameOutline.keys (h : SameOutline e e') : e'.keys = e.keys :=
  (congrArg Entity.keys h.2 :)

theorem SameOutline.labels (h : SameOutline e e') : e'.labels = e.labels :=
  (congrArg Entity.labels h.2 :)

theorem SameOutline.indices (h : SameOutline e e') : e'.indices = e.indices :=
  (congrArg Entity.indices h.2 :)

theorem SameOutline.grows (h : SameOutline e e') : Grows e e' :=
  ⟨h.sameStanding.name, h.sameStanding.isAbstract, h.sameStanding.parents ▸ List.Subset.refl _,
    h.sameStanding.implements ▸ List.Subset.refl _, h.1 ▸ List.Subset.refl _,
    h.keys ▸ List.Subset.refl _, h.labels⟩

theorem Gains.sameStanding (h : Gains e e') : SameStanding e e' := by
  obtain ⟨_, _, _, rfl⟩ := h
  exact ⟨rfl, rfl, rfl, rfl⟩

theorem Gains.grows (h : Gains e e') : Grows e e' := by
  obtain ⟨front, back, keys, rfl⟩ := h
  refine ⟨rfl, rfl, List.Subset.refl _, List.Subset.refl _, ?_, List.subset_append_right _ _, rfl⟩
  intro f hf
  simp [hf]

/-- The fields of an entity are changed one by one, up to their references. -/
theorem SameOutline.of_forall₂ {fields : List Field}
    (h : List.Forall₂ (fun f f' => f'.outline = f.outline) e.fields fields) :
    SameOutline e { e with fields } := SameBy.of_forall₂ h

theorem SameBearing.of_forall₂ {fields : List Field}
    (h : List.Forall₂ (fun f f' => f'.bearing = f.bearing) e.fields fields) :
    SameBearing e { e with fields } := SameBy.of_forall₂ h

/-- A field of the entity is found again, up to its reference. -/
theorem Grows.field (h : Grows e e') {f : Field} (hf : f ∈ e.fields) :
    ∃ f' ∈ e'.fields, f'.outline = f.outline :=
  List.mem_map.mp (h.fields (List.mem_map_of_mem hf))

end Entity

/-! ### What stays visible -/

namespace Model

open Entity (Grows)

variable {m m' : Model} {added : List String} {a b : String}

theorem linksOf_grows {links : Entity → List String}
    (hlinks : ∀ e e', Grows e e' → links e ⊆ links e') (h : Evolves Grows added m m')
    (hb : b ∈ m.linksOf links a) : b ∈ m'.linksOf links a := by
  obtain ⟨e, he, hb⟩ := mem_linksOf.mp hb
  obtain ⟨e', he', hgrows⟩ := h.entity? Entity.isChange_grows he
  exact mem_linksOf.mpr ⟨e', he', hlinks e e' hgrows hb⟩

theorem Inherits.grows (h : Evolves Grows added m m') (hab : m.Inherits a b) : m'.Inherits a b := by
  obtain ⟨c, hac, hcb⟩ := hab
  exact ⟨c, Closure.path_mono hac fun _ _ => linksOf_grows (fun _ _ h => h.parents) h,
    Closure.path_mono hcb fun _ _ => linksOf_grows (fun _ _ h => h.implements) h⟩

/-- An entity of the lineage is found again in the lineage, as what it became. -/
theorem lineage_grows (h : Evolves Grows added m m') {e : Entity} (he : e ∈ m.lineage a) :
    ∃ e' ∈ m'.lineage a, Grows e e' := by
  obtain ⟨he, hpath⟩ := mem_lineage.mp he
  obtain ⟨e', he', hgrows⟩ := h.entity? Entity.isChange_grows he
  have hname := hgrows.name
  exact ⟨e', mem_lineage.mpr ⟨hname ▸ he', hname ▸ hpath.grows h⟩, hgrows⟩

theorem Sees.grows (h : Evolves Grows added m m') (hab : m.Sees a b) : m'.Sees a b := by
  obtain ⟨e, he, f, hf, hname⟩ := sees_iff.mp hab
  obtain ⟨e', he', hgrows⟩ := lineage_grows h he
  obtain ⟨f', hf', hout⟩ := hgrows.field hf
  exact sees_iff.mpr ⟨e', he', f', hf', (Field.name_of_outline hout).trans hname⟩

theorem Keyed.grows (h : Evolves Grows added m m') (hab : m.Keyed a b) : m'.Keyed a b := by
  obtain ⟨e, he, key, hkey, hb⟩ := keyed_iff.mp hab
  obtain ⟨e', he', hgrows⟩ := lineage_grows h he
  exact keyed_iff.mpr ⟨e', he', key, hgrows.keys hkey, hb⟩

end Model

end EntitySchema
