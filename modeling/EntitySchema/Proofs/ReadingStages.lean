import EntitySchema.Proofs.Run
import EntitySchema.Schema
import EntitySchema.Screens.Node
import Mathlib.Data.List.ModifyLast

/-! Reading a field, an entity or a form in stages: what comes before the attribute with a number
in it, the attribute, and what comes after. Elements that differ in this attribute only are the
same to the other stages, and what comes after makes nothing of the number but store it. -/

namespace EntitySchema

open Xml (Element)

/-! ### Elements that differ in one attribute -/

/-- The elements are the same but for what they have in the attribute `key`, if they have it. -/
structure Xml.Element.SameBut (key : String) (x y : Element) : Prop where
  name : x.name = y.name
  others : x.attributes.filter (·.1 != key) = y.attributes.filter (·.1 != key)
  children : x.children = y.children
  text : x.text = y.text

namespace Xml.Element.SameBut

variable {key k : String} {x y : Element} {allowed : List String} {context : String}

theorem refl (key : String) (x : Element) : x.SameBut key x := ⟨rfl, rfl, rfl, rfl⟩

/-- An entry of another key is found among the entries of other keys. -/
theorem lookup_filter {entries : List (String × String)} (hk : k ≠ key) :
    (entries.filter (·.1 != key)).lookup k = entries.lookup k := by
  induction entries with
  | nil => rfl
  | cons entry rest ih =>
    obtain ⟨k', value⟩ := entry
    by_cases hsame : k' = key
    · subst hsame
      rw [List.filter_cons_of_neg (by simp), ih, List.lookup_cons, beq_false_of_ne hk]
    · rw [List.filter_cons_of_pos (by simp [hsame]), List.lookup_cons, List.lookup_cons, ih]

theorem attr? (h : x.SameBut key y) (hk : k ≠ key) : x.attr? k = y.attr? k := by
  unfold Element.attr?
  rw [← lookup_filter hk, h.others, lookup_filter hk]

theorem filled? (h : x.SameBut key y) (hk : k ≠ key) : x.filled? k = y.filled? k := by
  unfold Element.filled?
  rw [h.attr? hk]

theorem trimmed? (h : x.SameBut key y) (hk : k ≠ key) : x.trimmed? k = y.trimmed? k := by
  unfold Element.trimmed?
  rw [h.filled? hk]

theorem attrOrEmpty (h : x.SameBut key y) (hk : k ≠ key) :
    x.attrOrEmpty k = y.attrOrEmpty k := by
  unfold Element.attrOrEmpty
  rw [h.attr? hk]

theorem flag (h : x.SameBut key y) (hk : k ≠ key) : x.flag k = y.flag k := by
  unfold Element.flag Element.flagOr
  rw [h.attr? hk]

theorem childrenNamed (h : x.SameBut key y) (name : String) :
    x.childrenNamed name = y.childrenNamed name := by
  unfold Element.childrenNamed
  rw [h.children]

/-- Where the attribute is allowed, it makes no difference to what is not. -/
theorem allowOnly (h : x.SameBut key y) (hkey : key ∈ allowed) :
    x.allowOnly allowed context = y.allowOnly allowed context := by
  have hfind : ∀ z : Element, z.attributes.find? (fun entry => !allowed.contains entry.1) =
      (z.attributes.filter (·.1 != key)).find? fun entry => !allowed.contains entry.1 := by
    intro z
    rw [List.find?_filter]
    refine congrFun (congrArg _ (funext fun entry => ?_)) _
    by_cases hsame : entry.1 = key <;> simp [hsame, hkey]
  unfold Element.allowOnly
  rw [hfind x, hfind y, h.others, h.name]

end Xml.Element.SameBut

/-! ### Lifted work and loops -/

section Work

variable {α β : Type}

theorem lift_bind (work : Except Failure α) (f : α → Except Failure β) :
    (liftM (work >>= f) : Noting β) = liftM work >>= fun a => liftM (f a) := by
  cases work <;> rfl

theorem lift_map (g : α → β) (work : Except Failure α) :
    (liftM (g <$> work) : Noting β) = g <$> liftM work := by
  cases work <;> rfl

theorem lift_schema_map (g : α → β) (work : Except SchemaFault α) :
    (liftM (g <$> work) : Noting β) = g <$> liftM work := by
  cases work <;> rfl

/-- A change that makes no difference to the rounds of a loop may as well come after it. -/
theorem foldlM_change {μ : Type → Type} [Monad μ] [LawfulMonad μ]
    {f : α → β → μ α} {change : α → α} (h : ∀ a b, f (change a) b = change <$> f a b) :
    ∀ (bs : List β) (a : α), bs.foldlM f (change a) = change <$> bs.foldlM f a
  | [], a => by simp
  | b :: bs, a => by
    rw [List.foldlM_cons, List.foldlM_cons, h, map_bind, bind_map_left]
    exact bind_congr fun a => foldlM_change h bs a

end Work

/-! ### Changes of entities that keys and indices do not see -/

namespace Entity

variable {e : Entity} {f : Field} {n : Nat} {size : Option Nat}

/-- The change sees neither the keys nor the indices of an entity, and leaves them alone. -/
structure KeepsKeys (change : Entity → Entity) : Prop where
  name : ∀ e, (change e).name = e.name
  keys : ∀ e, (change e).keys = e.keys
  indices : ∀ e, (change e).indices = e.indices
  withKeys : ∀ e keys, change { e with keys } = { change e with keys }
  withIndices : ∀ e indices, change { e with indices } = { change e with indices }

theorem KeepsKeys.addIndex {change : Entity → Entity} (h : KeepsKeys change) (index : Index) :
    (change e).addIndex index = change (e.addIndex index) := by
  unfold Entity.addIndex hasIndex
  rw [apply_ite change, h.indices]
  exact ite_congr rfl (fun _ => rfl) fun _ => (h.withIndices e _).symm

theorem KeepsKeys.addKey {change : Entity → Entity} (h : KeepsKeys change) (key : Key) :
    (change e).addKey key = change <$> e.addKey key := by
  unfold Entity.addKey insertKey hasKey
  rw [apply_ite (change <$> ·), h.keys]
  refine ite_congr rfl (fun _ => ?_) fun _ => ?_
  · rw [h.name]
    rfl
  · exact congrArg Except.ok (h.withKeys e _).symm

/-- The entity with a string field of this length in the place of its last field. -/
def setLastLength (n : Nat) (e : Entity) : Entity :=
  { e with fields := e.fields.modifyLast fun f => { f with type := .string n } }

def setAllocationSize (size : Option Nat) (e : Entity) : Entity :=
  { e with allocationSize := size }

theorem setLastLength_keepsKeys : KeepsKeys (setLastLength n) :=
  ⟨fun _ => rfl, fun _ => rfl, fun _ => rfl, fun _ _ => rfl, fun _ _ => rfl⟩

theorem setAllocationSize_keepsKeys : KeepsKeys (setAllocationSize size) :=
  ⟨fun _ => rfl, fun _ => rfl, fun _ => rfl, fun _ _ => rfl, fun _ _ => rfl⟩

theorem setAllocationSize_name : (e.setAllocationSize size).name = e.name := rfl

theorem addField_setLastLength :
    e.addField { f with type := .string n } = setLastLength n <$> e.addField f := by
  unfold addField insertField
  rw [apply_ite (setLastLength n <$> ·), List.take_length, List.drop_length]
  refine ite_congr rfl (fun _ => rfl) fun _ => ?_
  show Except.ok _ = Except.ok _
  rw [setLastLength, List.modifyLast_concat]

theorem addField_setAllocationSize :
    (e.setAllocationSize size).addField f = setAllocationSize size <$> e.addField f := by
  unfold addField insertField
  rw [apply_ite (setAllocationSize size <$> ·)]
  rfl

end Entity

/-! ### Lengths of fields -/

namespace Schema

/-- What is known of a field before its type is read: its name, how messages name it, and the
type that it declares. -/
structure FieldHeading where
  name : String
  owner : String
  declared : DeclaredType

variable {x y : Element} {entity : Entity} {key k owner name : String} {f : Field}
  {heading : FieldHeading} {identity : Bool} {type : FieldType} {n : Nat}

def fieldHeading (entity : Entity) (x : Element) : Noting FieldHeading := do
  let name := Text.trim (← require x "name" s!"a field in entity '{entity.name}'")
  let owner := s!"field '{name}' of entity '{entity.name}'"
  x.allowOnly fieldAttributes s!"on {owner}"
  let typeName ← require x "type" owner
  let some declared := DeclaredType.ofName? typeName
    | throw (.schema (.unknownType typeName owner))
  pure ⟨name, owner, declared⟩

/-- Adds the index and the key that the attributes of a field ask for. -/
def markField (x : Element) (identity : Bool) (name : String) (entity : Entity) : Noting Entity :=
  let entity := if x.flag "index" then entity.addIndex ⟨name, [name]⟩ else entity
  if identity || x.flag "unique" then entity.addKey { fields := [name] } else pure entity

def storeField (entity : Entity) (x : Element) (identity : Bool) (f : Field) : Noting Entity := do
  markField x identity f.name (← entity.addField f)

/-- What is left to do for a field when its type has been read. -/
def finishField (entity : Entity) (x : Element) (heading : FieldHeading) (type : FieldType) :
    Noting Entity := do
  let filter ← readFilter x heading.owner
  let field := { plainField x heading.name type heading.declared.identity with filter }
  if isStranded field then throw (.schema (.hiddenField heading.owner))
  storeField entity x heading.declared.identity field

theorem addField_eq (entity : Entity) (x : Element) :
    addField entity x = fieldHeading entity x >>= fun heading =>
      liftM ((readType x heading.owner heading.declared.name).mapError Failure.schema) >>=
        finishField entity x heading := by
  unfold addField fieldHeading
  simp only [bind_assoc]
  refine bind_congr fun name => bind_congr fun _ => bind_congr fun typeName => ?_
  cases DeclaredType.ofName? typeName <;> rfl

theorem require_same (h : x.SameBut key y) (hk : k ≠ key) :
    require x k owner = require y k owner := by
  unfold require
  rw [h.filled? hk]

theorem fieldHeading_same (h : x.SameBut "length" y) :
    fieldHeading entity x = fieldHeading entity y := by
  have hlength : "length" ∈ fieldAttributes := by decide
  unfold fieldHeading
  simp (disch := decide) only [require_same h, h.allowOnly hlength]

/-- The declared type is the one that the type attribute names. -/
theorem fieldHeading_declared {noted noted' : List Warning}
    (h : Ends (fieldHeading entity x) noted heading noted') :
    (x.filled? "type").bind DeclaredType.ofName? = some heading.declared := by
  unfold fieldHeading at h
  obtain ⟨_, _, h⟩ := h.lift_bind
  obtain ⟨_, _, h⟩ := h.lift_bind
  obtain ⟨typeName, htype, h⟩ := h.lift_bind
  have hfilled : x.filled? "type" = some typeName := by
    have htype := Except.mapError_ok (g := Failure.schema) htype
    unfold require at htype
    split at htype
    · next hvalue => cases htype; exact hvalue
    · cases htype
  rw [hfilled, Option.bind_some]
  split at h
  · next declared hdeclared =>
    obtain ⟨rfl, -⟩ := h.pure
    rw [hdeclared]
  · exact h.throw.elim

theorem readFilter_same (h : x.SameBut "length" y) : readFilter x owner = readFilter y owner := by
  unfold readFilter
  simp (disch := decide) only [h.flag, h.filled?]

theorem plainField_same (h : x.SameBut "length" y) :
    plainField x name type identity = plainField y name type identity := by
  have hnillable : x.flag (if (y.attr? "nillable").isSome then "nillable" else "optional") =
      y.flag (if (y.attr? "nillable").isSome then "nillable" else "optional") := by
    split <;> exact h.flag (by decide)
  unfold plainField
  simp (disch := decide) only [h.flag, h.filled?, h.attr?, h.attrOrEmpty, hnillable]

theorem finishField_same (h : x.SameBut "length" y) :
    finishField entity x heading = finishField entity y heading := by
  funext type
  unfold finishField storeField markField
  simp (disch := decide) only [readFilter_same h, plainField_same h, h.flag]

theorem addField_stages (h : x.SameBut "length" y) :
    addField entity x = fieldHeading entity y >>= fun heading =>
      liftM ((readType x heading.owner heading.declared.name).mapError Failure.schema) >>=
        finishField entity y heading := by
  simp only [addField_eq, fieldHeading_same h, finishField_same h]

theorem markField_change {change : Entity → Entity} (hkeeps : Entity.KeepsKeys change) :
    markField x identity name (change entity) =
      change <$> markField x identity name entity := by
  unfold markField
  dsimp only
  rw [hkeeps.addIndex, ← apply_ite change, hkeeps.addKey, apply_ite (change <$> ·)]
  refine ite_congr rfl (fun _ => ?_) fun _ => rfl
  cases Entity.addKey (if x.flag "index" then _ else entity) _ <;> rfl

/-- A change that keys and indices do not see may as well come last. -/
theorem storeField_change {entity' : Entity} {f' : Field} {change : Entity → Entity}
    (hkeeps : Entity.KeepsKeys change) (hname : f'.name = f.name)
    (hadd : entity'.addField f' = change <$> entity.addField f) :
    storeField entity' x identity f' = change <$> storeField entity x identity f := by
  unfold storeField
  rw [hadd, hname]
  cases entity.addField f with
  | error e => rfl
  | ok e => exact markField_change hkeeps

theorem finishField_change {entity' : Entity} {type' : FieldType} {change : Entity → Entity}
    (hkeeps : Entity.KeepsKeys change) (hadd : ∀ filter,
      entity'.addField { plainField x heading.name type' heading.declared.identity with filter } =
        change <$> entity.addField
          { plainField x heading.name type heading.declared.identity with filter }) :
    finishField entity' x heading type' = change <$> finishField entity x heading type := by
  unfold finishField
  rw [map_bind]
  refine bind_congr fun filter => ?_
  dsimp only
  rw [apply_ite (change <$> ·)]
  -- Whether the field is stranded does not depend on its type.
  exact ite_congr rfl (fun _ => rfl) fun _ => storeField_change hkeeps rfl (hadd filter)

theorem finishField_setLastLength :
    finishField entity x heading (.string n) =
      Entity.setLastLength n <$> finishField entity x heading type :=
  finishField_change Entity.setLastLength_keepsKeys fun filter => Entity.addField_setLastLength
    (f := { plainField x heading.name type heading.declared.identity with filter })

/-! ### Allocation sizes of entities -/

section AllocationSizes

open Entity (setAllocationSize setAllocationSize_name setAllocationSize_keepsKeys
  addField_setAllocationSize)

variable {m : Model} {module : Option String} {size : Option Nat}

def entityHeading (x : Element) : Noting String := do
  let name := Text.trim (← require x "name" "entity")
  x.allowOnly entityAttributes s!"in entity '{name}'"
  pure name

/-- What the attributes and the descriptions of an entity say, when its name and its allocation
size have been read. -/
def declaredEntity (m : Model) (x : Element) (module : Option String) (name : String)
    (allocationSize : Option Nat) : Entity :=
  let description :=
    (x.childrenNamed "description").foldl describe ((x.filled? "description").getD "")
  { name
    label := (x.filled? "label").getD name
    scope := module.getD m.name
    module
    description := Text.nonEmpty? description
    isAbstract := x.flag "abstract"
    system := x.flag "system"
    parents := Text.splitList (x.attrOrEmpty "extends")
    implements := Text.splitList (x.attrOrEmpty "implements")
    decorator := x.filled? "decorator"
    labels := ((x.filled? "xref_label").map Text.splitList).filter (!·.isEmpty)
    allocationSize }

/-- Adds what stands inside the entity. -/
def finishEntity (m : Model) (x : Element) (entity : Entity) : Noting Entity := do
  let entity ← (x.childrenNamed "field").foldlM addField entity
  let entity ← addKeys m entity x
  let entity ← addIndices entity x
  noteSkipped x entity.name
  pure entity

theorem readEntity_eq (m : Model) (x : Element) (module : Option String) :
    readEntity x module m = entityHeading x >>= fun name =>
      liftM ((number? x "allocationSize" s!"entity '{name}'" Text.Numeral.max32).mapError
        Failure.schema) >>=
          fun size => finishEntity m x (declaredEntity m x module name size) := by
  unfold readEntity plainEntity entityHeading
  simp only [lift_bind, bind_assoc, pure_bind]
  rfl

theorem entityHeading_same (h : x.SameBut "allocationSize" y) :
    entityHeading x = entityHeading y := by
  have hsize : "allocationSize" ∈ entityAttributes := by decide
  unfold entityHeading
  simp (disch := decide) only [require_same h, h.allowOnly hsize]

theorem declaredEntity_same (h : x.SameBut "allocationSize" y) :
    declaredEntity m x = declaredEntity m y := by
  funext module name size
  unfold declaredEntity
  simp (disch := decide) only [h.childrenNamed, h.filled?, h.flag, h.attrOrEmpty]

theorem finishEntity_same (h : x.SameBut "allocationSize" y) :
    finishEntity m x = finishEntity m y := by
  funext entity
  unfold finishEntity addKeys addIndices noteSkipped
  simp only [h.childrenNamed, h.children]

theorem readEntity_stages (h : x.SameBut "allocationSize" y) :
    readEntity x module m = entityHeading y >>= fun name =>
      liftM ((number? x "allocationSize" s!"entity '{name}'" Text.Numeral.max32).mapError
        Failure.schema) >>=
          fun size => finishEntity m y (declaredEntity m y module name size) := by
  simp only [readEntity_eq, entityHeading_same h, declaredEntity_same h, finishEntity_same h]

/-! ### Nothing looks at the allocation size -/

theorem finishField_setAllocationSize :
    finishField (entity.setAllocationSize size) x heading type =
      setAllocationSize size <$> finishField entity x heading type :=
  finishField_change setAllocationSize_keepsKeys fun filter => addField_setAllocationSize
    (f := { plainField x heading.name type heading.declared.identity with filter })

theorem fieldHeading_setAllocationSize :
    fieldHeading (entity.setAllocationSize size) x = fieldHeading entity x := by
  unfold fieldHeading
  rw [setAllocationSize_name]

theorem readField_setAllocationSize (entity : Entity) (x : Element) :
    addField (entity.setAllocationSize size) x =
      setAllocationSize size <$> addField entity x := by
  rw [addField_eq, addField_eq, map_bind, fieldHeading_setAllocationSize]
  refine bind_congr fun heading => ?_
  rw [map_bind]
  exact bind_congr fun type => finishField_setAllocationSize

theorem addKeyField_setAllocationSize (entity : Entity) (name : String) :
    addKeyField m (entity.setAllocationSize size) name =
      setAllocationSize size <$> addKeyField m entity name := by
  have hinherited : inheritedField? m (entity.setAllocationSize size) name =
      inheritedField? m entity name := rfl
  unfold addKeyField
  rw [apply_ite (setAllocationSize size <$> ·), hinherited]
  refine ite_congr rfl (fun _ => rfl) fun _ => ?_
  cases inheritedField? m entity name with
  | none => rfl
  | some f =>
    dsimp only
    rw [addField_setAllocationSize]
    cases entity.addField { f with system := true, origin := .constraintCopy } <;> rfl

theorem addKey_setAllocationSize (entity : Entity) (x : Element) :
    addKey m (entity.setAllocationSize size) x = setAllocationSize size <$> addKey m entity x := by
  unfold addKey
  simp only [setAllocationSize_name, foldlM_change addKeyField_setAllocationSize, map_bind,
    bind_map_left, setAllocationSize_keepsKeys.addKey]
  refine bind_congr fun _ => bind_congr fun e => bind_congr fun inside => ?_
  rw [apply_ite (setAllocationSize size <$> ·)]
  refine ite_congr rfl (fun _ => rfl) fun _ => ?_
  cases Entity.addKey e _ <;> rfl

theorem addIndex_setAllocationSize (entity : Entity) (x : Element) :
    addIndex (entity.setAllocationSize size) x = setAllocationSize size <$> addIndex entity x := by
  have hfield : addIndexField (entity.setAllocationSize size) = addIndexField entity := rfl
  unfold addIndex
  simp only [setAllocationSize_name, hfield, map_bind, setAllocationSize_keepsKeys.addIndex]
  refine bind_congr fun name => bind_congr fun fields => ?_
  rw [apply_ite (setAllocationSize size <$> ·)]
  rfl

theorem addIndices_setAllocationSize (entity : Entity) (x : Element) :
    addIndices (entity.setAllocationSize size) x =
      setAllocationSize size <$> addIndices entity x := by
  unfold addIndices
  split
  · rfl
  · exact foldlM_change addIndex_setAllocationSize _ _
  · rfl

theorem finishEntity_setAllocationSize (entity : Entity) :
    finishEntity m x (entity.setAllocationSize size) =
      setAllocationSize size <$> finishEntity m x entity := by
  unfold finishEntity addKeys
  simp only [foldlM_change readField_setAllocationSize, foldlM_change addKey_setAllocationSize,
    addIndices_setAllocationSize, lift_map, lift_schema_map, bind_map_left, map_bind, map_pure,
    setAllocationSize_name]

end AllocationSizes

end Schema

/-! ### Limits of forms -/

namespace Screens

variable {m : Model} {form : String} {x y : Element} {heading : Entity × FormView} {n limit : Nat}

def formHeading (m : Model) (form : String) (x : Element) : Noting (Entity × FormView) := do
  let entity ← formEntity m form x
  let view ← readView form x
  pure (entity, view)

/-- What is left to do for a form when its limit has been read. -/
def finishForm (m : Model) (form : String) (x : Element) (heading : Entity × FormView)
    (limit : Nat) : Noting (Form × Entity) := do
  let sortOrder ← readSortOrder form x
  let filter ← readFilter form x
  let hideFields ← readFields m form heading.1 x "hide_fields"
  let compact ← readFields m form heading.1 x "compact_view"
  let result : Form := {
    entity := heading.1.name
    view := heading.2
    limit
    readonly := x.flag "readonly"
    header := x.filled? "header"
    description := x.filled? "description"
    commands := Text.splitList (x.attrOrEmpty "commands")
    sortBy := x.filled? "sortby"
    sortOrder
    filter
    hideFields
    compactView := compact.map fun name => s!"{heading.1.name}_{name}" }
  pure (result, heading.1)

def setLimit (limit : Nat) (form : Form × Entity) : Form × Entity :=
  ({ form.1 with limit }, form.2)

theorem readForm_eq (m : Model) (form : String) (x : Element) :
    readForm m form x = formHeading m form x >>= fun heading =>
      liftM ((readLimit form x).mapError Failure.screen) >>= finishForm m form x heading := by
  unfold readForm formHeading
  simp only [bind_assoc, pure_bind]
  rfl

theorem formHeading_same (h : x.SameBut "limit" y) :
    formHeading m form x = formHeading m form y := by
  unfold formHeading formEntity readView
  simp (disch := decide) only [h.trimmed?, h.attrOrEmpty, h.children]

theorem finishForm_same (h : x.SameBut "limit" y) :
    finishForm m form x = finishForm m form y := by
  funext heading limit
  unfold finishForm readSortOrder readFilter readFields
  simp (disch := decide) only [h.trimmed?, h.attrOrEmpty, h.flag, h.filled?]

theorem readForm_stages (h : x.SameBut "limit" y) :
    readForm m form x = formHeading m form y >>= fun heading =>
      liftM ((readLimit form x).mapError Failure.screen) >>= finishForm m form y heading := by
  simp only [readForm_eq, formHeading_same h, finishForm_same h]

theorem finishForm_setLimit :
    finishForm m form x heading n = setLimit n <$> finishForm m form x heading limit := by
  unfold finishForm
  simp only [map_bind, map_pure, setLimit]

end Screens

end EntitySchema
