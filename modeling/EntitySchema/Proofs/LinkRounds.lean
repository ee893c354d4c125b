import EntitySchema.Proofs.DistinctFields

/-! Rounds of backing many-to-many fields. The pass is a run over the sites of such
fields, in model order. A round changes nothing but the columns of the field at its
site and the labels of a column, so the sites still to come are where they were. -/

namespace EntitySchema

open Model (Evolves)
open Entity (SameBearing IsChange isChange_sameBearing)

variable {m m' : Model} {e e' : Entity} {f f' : Field} {dialect : Dialect}

/-! ### What backing leaves alone -/

/-- The type without the columns of a link and the labels of a column. -/
def FieldType.frame : FieldType → FieldType
  | .xref target => .xref { target with labels := [] }
  | .mref target link => .mref target { link with localId := none, remoteId := none }
  | other => other

namespace Field

/-- The field without the columns of its link, or without its labels as a column. -/
def frame (f : Field) : Field := { f with type := f.type.frame }

theorem bearing_of_frame (h : f'.frame = f.frame) : f'.bearing = f.bearing := by
  have hbearing : ∀ f : Field, f.frame.bearing = f.bearing := by
    rintro ⟨_, _, type⟩
    cases type <;> rfl
  rw [← hbearing, h, hbearing]

theorem frame_through (localId remoteId : String) (f : Field) :
    (Link.through localId remoteId f).frame = f.frame := by
  rcases f with ⟨_, _, type⟩
  cases type <;> rfl

theorem frame_showing {labels : List String} (h : f.isMref = false) :
    (Link.showing labels f).frame = f.frame := by
  rcases f with ⟨_, _, type⟩
  cases type <;> first | rfl | cases h

theorem isMref_of_frame (h : f'.frame = f.frame) : f'.isMref = f.isMref :=
  isMref_of_bearing (bearing_of_frame h)

/-- The name of the field's link, if it is many-to-many and has one. -/
def linkName? (f : Field) : Option String := f.type.link?.bind (·.name)

/-- Fields of the same frame have the same link. -/
theorem linkName?_of_frame (h : f'.frame = f.frame) : f'.linkName? = f.linkName? := by
  have hlink : ∀ f : Field, f.frame.linkName? = f.linkName? := by
    rintro ⟨_, _, type⟩
    cases type <;> rfl
  rw [← hlink, h, hlink]

theorem targetEntity?_of_frame (h : f'.frame = f.frame) : f'.targetEntity? = f.targetEntity? :=
  targetEntity?_of_bearing (bearing_of_frame h)

end Field

namespace Entity

/-- The same entity up to the columns of links and the labels of columns. -/
def SameFrame (e e' : Entity) : Prop :=
  e'.fields.map Field.frame = e.fields.map Field.frame ∧ { e' with fields := [] } =
    { e with fields := [] }

theorem isChange_sameFrame : IsChange SameFrame := isChange_sameBy Field.frame

theorem SameFrame.of_forall₂ {fields : List Field}
    (h : List.Forall₂ (fun f f' => f'.frame = f.frame) e.fields fields) :
    SameFrame e { e with fields } := SameBy.of_forall₂ h

theorem SameFrame.forall₂ (h : SameFrame e e') :
    List.Forall₂ (fun f f' => f'.frame = f.frame) e.fields e'.fields := SameBy.forall₂ h

theorem SameFrame.sameBearing (h : SameFrame e e') : SameBearing e e' :=
  SameBy.mono (fun _ _ => Field.bearing_of_frame) h

theorem SameFrame.distinct (h : SameFrame e e') (he : e.DistinctFields) : e'.DistinctFields :=
  h.sameBearing.sameOutline.distinct he

theorem SameFrame.hasColumn {name entity : String} (h : SameFrame e e')
    (he : e.HasColumn name entity) : e'.HasColumn name entity := by
  obtain ⟨f, hf, rfl, hmref, htarget⟩ := he
  obtain ⟨f', hf', hframe⟩ := exists_of_forall₂_left h.forall₂ hf
  have hout := Field.outline_of_bearing (Field.bearing_of_frame hframe)
  exact ⟨f', hf', Field.name_of_outline hout, (Field.isMref_of_frame hframe).trans hmref,
    (Field.targetEntity?_of_frame hframe).trans htarget⟩

end Entity

open Entity (SameFrame isChange_sameFrame)

/-- If the field of this number is many-to-many, it names its link. -/
def Entity.Sited (e : Entity) (index : Nat) : Prop :=
  ∀ f, e.fields[index]? = some f → f.isMref = true → (Link.siteAt e index).isSome = true

namespace Link

/-! ### One round -/

/-- When names are distinct, the first field of the name of a column is that column. -/
theorem isMref_of_column {name entity : String} (he : e.DistinctFields)
    (hcolumn : e.HasColumn name entity) (hfind : e.fields.find? (·.name = name) = some f) :
    f.isMref = false := by
  obtain ⟨column, hmem, hname, hmref, -⟩ := hcolumn
  obtain rfl : f = column := List.inj_on_of_nodup_map he (List.mem_of_find?_eq_some hfind) hmem
    (by simpa [hname] using List.find?_some hfind)
  exact hmref

theorem showIn_frame {remote entity : String} {labels : List String} (he : e.DistinctFields)
    (hcolumn : e.HasColumn remote entity) : SameFrame e (showIn remote labels e) :=
  SameFrame.of_forall₂ <| forall₂_changeFirst (R := fun f f' : Field => f'.frame = f.frame)
    (fun _ => rfl) fun _ hf => Field.frame_showing (isMref_of_column he hcolumn hf)

theorem routeAt_frame (index : Nat) (own remote : String) (e : Entity) :
    SameFrame e (routeAt index own remote e) :=
  SameFrame.of_forall₂ <| forall₂_modify (R := fun f f' : Field => f'.frame = f.frame)
    (fun _ => rfl) fun f _ => Field.frame_through own remote f

variable {owner field : String} {index : Nat} {target : Target} {link : Link} {existing : Entity}
  {site : Site} {made : List String}

theorem reuse_frame (hm : m.DistinctFields) (hfound : m.entity? existing.name = some existing)
    (h : reuse m owner index field target link existing = .ok m') : Evolves SameFrame [] m m' := by
  obtain ⟨remote, own, hremote, -, rfl⟩ := reuse_ok h
  have hdistinct := hm existing (Model.entity?_mem hfound)
  have hshown : Evolves SameFrame [] m
      (m.changeEntity existing.name (showIn remote target.labels)) := by
    refine .changeEntity isChange_sameFrame fun e he => ?_
    rw [hfound] at he
    cases he
    exact showIn_frame hdistinct (remoteColumn?_ok hremote)
  exact hshown.trans_nil isChange_sameFrame
    (.changeEntity isChange_sameFrame fun e _ => routeAt_frame index own remote e)

theorem Backed.frame (hm : m.DistinctFields) (h : Backed dialect m site made m') :
    Evolves SameFrame made m m' ∧ m'.DistinctFields := by
  cases h with
  | reused _ _ _ _ hfound hreuse =>
    have hframe := reuse_frame hm (Model.entity?_self hfound) hreuse
    exact ⟨hframe, hm.evolves hframe fun _ _ => SameFrame.distinct⟩
  | @made owner _ _ _ new _ _ _ _ _ hmake hadd =>
    obtain ⟨_, _, -, -, -, hcolumns⟩ := make_ok hmake
    have hplain : ∀ field, (plainEntity owner field site.link).DistinctFields := fun field => by
      simp [Entity.DistinctFields, plainEntity]
    exact ⟨make_name hmake ▸ .addEntity isChange_sameFrame hadd,
      hm.addEntity (withColumns_distinct (hplain _) hcolumns) hadd⟩

/-! ### All rounds -/

/-- The sites of an entity, none if it is abstract. -/
def sitesOf (e : Entity) : List Site :=
  if e.isAbstract then [] else (List.range e.fields.length).filterMap (siteAt e)

/-- The sites of the model. -/
def sites (m : Model) : List Site := m.entities.flatMap sitesOf

/-- One round after the other, with the names of the entities that are made. -/
inductive Rounds (dialect : Dialect) : List Site → Model → List String → Model → Prop
  | done (m : Model) : Rounds dialect [] m [] m
  | round {site : Site} {rest : List Site} {made others : List String} {m m₁ m' : Model}
      (backed : Backed dialect m site made m₁) (rounds : Rounds dialect rest m₁ others m') :
      Rounds dialect (site :: rest) m (made ++ others) m'

/-- What every round keeps, the run keeps. -/
theorem Rounds.keeps {rounds : List Site} {made : List String} {P : Model → Prop}
    (hround : ∀ site ∈ rounds, ∀ {made m m'}, Backed dialect m site made m' → P m → P m')
    (h : Rounds dialect rounds m made m') (hm : P m) : P m' := by
  induction h with
  | done => exact hm
  | round backed _ ih =>
    obtain ⟨hfirst, hrest⟩ := List.forall_mem_cons.mp hround
    exact ih hrest (hfirst backed hm)

theorem Rounds.append {before after : List Site} {made others : List String} {m₁ : Model}
    (h : Rounds dialect before m made m₁) (h' : Rounds dialect after m₁ others m') :
    Rounds dialect (before ++ after) m (made ++ others) m' := by
  induction h with
  | done => exact h'
  | round backed _ ih =>
    rw [List.append_assoc]
    exact .round backed (ih h')

theorem Rounds.split {before after : List Site} : ∀ {m : Model} {made : List String},
    Rounds dialect (before ++ after) m made m' → ∃ made₁ made₂ m₁, made = made₁ ++ made₂ ∧
      Rounds dialect before m made₁ m₁ ∧ Rounds dialect after m₁ made₂ m' := by
  induction before with
  | nil => exact fun {m made} h => ⟨[], made, m, rfl, .done m, h⟩
  | cons site before ih =>
    intro m made h
    cases h with
    | round backed rounds =>
      obtain ⟨made₁, made₂, m₁, rfl, hbefore, hafter⟩ := ih rounds
      exact ⟨_, made₂, m₁, (List.append_assoc ..).symm, .round backed hbefore, hafter⟩

/-- A change that leaves the sites of an entity where they are: it keeps the number of the
fields, which of them are many-to-many, and the names of their links. -/
structure KeepsSites (R : Entity → Entity → Prop) : Prop extends IsChange R where
  isAbstract : ∀ {e e' : Entity}, R e e' → e'.isAbstract = e.isAbstract
  fields : ∀ {e e' : Entity}, R e e' → List.Forall₂
    (fun f f' : Field => f'.isMref = f.isMref ∧ f'.linkName? = f.linkName?) e.fields e'.fields

theorem keepsSites_sameFrame : KeepsSites SameFrame where
  toIsChange := isChange_sameFrame
  isAbstract h := (congrArg Entity.isAbstract h.2 :)
  fields h := h.forall₂.imp fun _ _ h => ⟨Field.isMref_of_frame h, Field.linkName?_of_frame h⟩

section Changes

variable {R : Entity → Entity → Prop} (hR : KeepsSites R)

include hR in
theorem KeepsSites.siteAt (h : R e e') (index : Nat) : siteAt e' index = siteAt e index := by
  unfold Link.siteAt
  have hname : e'.name = e.name := hR.name h
  have hget : e'.fields[index]?.bind Field.linkName? = e.fields[index]?.bind Field.linkName? := by
    cases hf : e.fields[index]? with
    | some f =>
      obtain ⟨f', hf', -, hlink⟩ := getElem?_of_forall₂ (hR.fields h) hf
      simp [hf', hlink]
    | none =>
      have hlength := (hR.fields h).length_eq
      rw [List.getElem?_eq_none_iff] at hf
      rw [List.getElem?_eq_none (hlength ▸ hf)]
  unfold Field.linkName? at hget
  rw [Option.bind_assoc, Option.bind_assoc, hget, hname]

/-! The rounds are taken for any change of entities that a round is, as long as the models
have what makes it so. -/

variable {P : Model → Prop} (hround : ∀ {site : Site} {made : List String} {m m' : Model}, P m →
  Backed dialect m site made m' → Evolves R made m m' ∧ P m')

include hR hround in
theorem Rounds.evolves {rounds : List Site} (h : Rounds dialect rounds m made m') (hm : P m) :
    Evolves R made m m' ∧ P m' := by
  induction h with
  | done m => exact ⟨.refl hR.toIsChange m, hm⟩
  | round backed _ ih =>
    obtain ⟨hfirst, hm₁⟩ := hround hm backed
    obtain ⟨hrest, hm'⟩ := ih hm₁
    exact ⟨hfirst.trans hR.toIsChange hrest, hm'⟩

include hR hround in
/-- Backing the fields of these numbers is a run over their sites; those that are
many-to-many have one. -/
theorem backEach_rounds {mades : List (List String)} : ∀ {indices : List Nat} {m : Model},
    P m → m.entity? e.name = some e' → R e e' →
    Ends (indices.mapM (back dialect e.name)) m mades m' →
    Rounds dialect (indices.filterMap (siteAt e)) m mades.flatten m' ∧
      ∀ index ∈ indices, e.Sited index := by
  intro indices
  induction indices generalizing mades e' with
  | nil => intro m _ _ _ h; cases h; exact ⟨.done _, by simp⟩
  | cons index rest ih =>
    intro m hm he' hsame h
    rw [List.mapM_cons] at h
    obtain ⟨made, m₁, hback, h⟩ := h.bind
    obtain ⟨others, m₂, hrest, h⟩ := h.bind
    obtain ⟨rfl, rfl⟩ := h.pure
    rcases back_cases he' hback with ⟨hplain, rfl, rfl⟩ | ⟨site, hsite, hbacked⟩
    · obtain ⟨hrounds, hsited⟩ := ih hm he' hsame hrest
      rw [List.filterMap_cons, ← hR.siteAt hsame, siteAt_eq_none hplain, List.flatten_cons,
        List.nil_append]
      refine ⟨hrounds, List.forall_mem_cons.mpr ⟨fun f hf hmref => ?_, hsited⟩⟩
      obtain ⟨f', hf', hkind, -⟩ := getElem?_of_forall₂ (hR.fields hsame) hf
      rw [← hkind, hplain f' hf'] at hmref
      cases hmref
    · obtain ⟨hfirst, hm₁⟩ := hround hm hbacked
      obtain ⟨e₁, he₁, hsame₁⟩ := hfirst.entity? hR.toIsChange he'
      obtain ⟨hrounds, hsited⟩ := ih hm₁ he₁ (hR.trans hsame hsame₁) hrest
      rw [hR.siteAt hsame] at hsite
      rw [List.filterMap_cons, hsite]
      refine ⟨.round hbacked hrounds, List.forall_mem_cons.mpr ⟨fun f _ _ => ?_, hsited⟩⟩
      rw [hsite, Option.isSome_some]

include hR hround in
theorem backAll_rounds (hm : P m) (he' : m.entity? e.name = some e') (hsame : R e e')
    (h : Ends (backAll dialect e.name) m made m') :
    Rounds dialect (sitesOf e) m made m' ∧ (e.isAbstract = false → ∀ index, e.Sited index) := by
  have hlength := (hR.fields hsame).length_eq
  have h := h.get_bind
  rw [he'] at h
  dsimp only at h
  rw [hR.isAbstract hsame, ← hlength] at h
  unfold sitesOf
  split at h
  · next hconcrete =>
    obtain ⟨rfl, rfl⟩ := h.pure
    rw [if_pos hconcrete]
    exact ⟨.done _, by simp [hconcrete]⟩
  · next hconcrete =>
    obtain ⟨mades, m₁, hloop, h⟩ := h.bind
    obtain ⟨rfl, rfl⟩ := h.pure
    rw [if_neg hconcrete]
    obtain ⟨hrounds, hsited⟩ := backEach_rounds hR hround hm he' hsame hloop
    refine ⟨hrounds, fun _ index f hf => ?_⟩
    obtain ⟨hindex, -⟩ := List.getElem?_eq_some_iff.mp hf
    exact hsited index (List.mem_range.mpr hindex) f hf

include hR hround in
theorem backAllEach_rounds {mades : List (List String)} : ∀ {es : List Entity} {m : Model},
    P m → (∀ e ∈ es, ∃ e', m.entity? e.name = some e' ∧ R e e') →
    Ends ((es.map (·.name)).mapM (backAll dialect)) m mades m' →
    Rounds dialect (es.flatMap sitesOf) m mades.flatten m' ∧
      ∀ e ∈ es, e.isAbstract = false → ∀ index, e.Sited index := by
  intro es
  induction es generalizing mades with
  | nil => intro m _ _ h; cases h; exact ⟨.done _, by simp⟩
  | cons e rest ih =>
    intro m hm hes h
    rw [List.map_cons, List.mapM_cons] at h
    obtain ⟨made, m₁, hback, h⟩ := h.bind
    obtain ⟨others, m₂, hrest, h⟩ := h.bind
    obtain ⟨rfl, rfl⟩ := h.pure
    obtain ⟨e', he', hsame⟩ := hes e List.mem_cons_self
    obtain ⟨hrounds₁, hsited⟩ := backAll_rounds hR hround hm he' hsame hback
    obtain ⟨hfirst, hm₁⟩ := hrounds₁.evolves hR hround hm
    -- each entity is still there when its turn comes, up to what backing changes
    obtain ⟨hrounds, hsiteds⟩ := ih hm₁ (fun x hx => by
      obtain ⟨x', hx', hsame⟩ := hes x (List.mem_cons_of_mem _ hx)
      obtain ⟨x₁, hx₁, hsame₁⟩ := hfirst.entity? hR.toIsChange hx'
      exact ⟨x₁, hx₁, hR.trans hsame hsame₁⟩) hrest
    exact ⟨hrounds₁.append hrounds, List.forall_mem_cons.mpr ⟨hsited, hsiteds⟩⟩

include hR hround in
/-- The pass is a run over the sites of the model that it begins with. -/
theorem rounds_of_synthesize (hnodup : m.entityNames.Nodup) (hm : P m)
    (h : Ends (synthesize dialect) m made m') : Rounds dialect (sites m) m made m' ∧
      ∀ e ∈ m.entities, e.isAbstract = false → ∀ index, e.Sited index := by
  obtain ⟨mades, m₁, hloop, h⟩ := h.get_bind.bind
  obtain ⟨rfl, rfl⟩ := h.pure
  exact backAllEach_rounds hR hround hm
    (fun e he => ⟨e, Model.entity?_of_mem hnodup he, hR.refl e⟩) hloop

end Changes

theorem Rounds.frame {rounds : List Site} (h : Rounds dialect rounds m made m')
    (hm : m.DistinctFields) : Evolves SameFrame made m m' ∧ m'.DistinctFields :=
  h.evolves keepsSites_sameFrame (fun hm backed => backed.frame hm) hm

theorem synthesize_rounds (hnodup : m.entityNames.Nodup) (hm : m.DistinctFields)
    (h : Ends (synthesize dialect) m made m') : Rounds dialect (sites m) m made m' ∧
      ∀ e ∈ m.entities, e.isAbstract = false → ∀ index, e.Sited index :=
  rounds_of_synthesize keepsSites_sameFrame (fun hm backed => backed.frame hm) hnodup hm h

end Link

end EntitySchema
