import EntitySchema.Report
import EntitySchema.Proofs.JsonText

/-! The JSON form of a compiled model loses nothing. Every member is read by its name as
what was written under it, null as what is absent, and every word for a variant as that
variant; so each part of a model is read back from its form, and the whole from the text
of its report. -/

namespace EntitySchema

namespace Json

variable {α : Type} {read : Json → Option α} {toJson : α → Json} {name other : String}
  {value : Json} {members : List (String × Json)}

@[simp] theorem text?_str (s : String) : text? (str s) = some s := rfl

@[simp] theorem bool?_bool (b : Bool) : bool? (bool b) = some b := rfl

@[simp] theorem number?_num (n : Nat) : number? (num n) = some n := rfl

/-! ### Members -/

@[simp] theorem require_self : (obj ((name, value) :: members)).require name read = read value := by
  simp [require, member?, List.lookup_cons_self]

@[simp] theorem require_of_ne (h : name ≠ other) :
    (obj ((other, value) :: members)).require name read = (obj members).require name read := by
  simp [require, member?, List.lookup_cons, beq_false_of_ne h]

@[simp] theorem optional_of_ne (h : name ≠ other) :
    (obj ((other, value) :: members)).optional name read = (obj members).optional name read := by
  simp [optional, present?, member?, List.lookup_cons, beq_false_of_ne h]

/-- What is absent is null, and nothing else is written as null. -/
theorem optional_self (o : Option α) (hread : ∀ a, read (toJson a) = some a)
    (hnull : ∀ a, toJson a ≠ null) :
    (obj ((name, ofOption toJson o) :: members)).optional name read = some o := by
  cases o with
  | none => simp [optional, present?, member?, ofOption]
  | some a =>
    have hpresent : (obj ((name, toJson a) :: members)).present? name = some (toJson a) := by
      simp only [present?, member?, List.lookup_cons_self]
      cases h : toJson a with
      | null => exact absurd h (hnull a)
      | _ => rfl
    simp [optional, ofOption, hpresent, hread]

@[simp] theorem optional_text (o : Option String) :
    (obj ((name, ofText? o) :: members)).optional name text? = some o := by
  cases o with
  | none => exact optional_self none text?_str nofun
  | some s => exact optional_self (some s) text?_str nofun

theorem mapM_map (hread : ∀ a, read (toJson a) = some a) (items : List α) :
    (items.map toJson).mapM read = some items := by
  induction items with
  | nil => rfl
  | cons a items ih => simp [hread, ih]

theorem list?_map (hread : ∀ a, read (toJson a) = some a) (items : List α) :
    list? read (arr (items.map toJson)) = some items := mapM_map hread items

@[simp] theorem texts?_ofTexts (texts : List String) : texts? (ofTexts texts) = some texts :=
  list?_map text?_str texts

end Json

open Json

/-! ### Fields -/

@[simp] theorem Target.ofJson?_toJson (t : Target) : ofJson? t.toJson = some t := by
  simp [ofJson?, toJson, members]

@[simp] theorem Link.ofJson?_toJson (l : Link) : ofJson? l.toJson = some l := by
  simp [ofJson?, toJson]

theorem FieldType.ofJson?_toJson (t : FieldType) : ofJson? t.toJson = some t := by
  cases t with
  | string length => rfl
  | enum options => simp [ofJson?, toJson, kind?]
  | xref target => simp [ofJson?, toJson, kind?, Target.ofJson?, Target.members]
  | mref target link => simp [ofJson?, toJson, kind?]
  | _ => rfl

theorem Origin.ofJson?_name (o : Origin) : ofJson? (str o.name) = some o := by
  cases o <;> rfl

theorem FieldFilter.ofJson?_toJson (f : FieldFilter) : ofJson? f.toJson = some f := by
  simp [ofJson?, toJson]

theorem Field.ofJson?_toJson (f : Field) : ofJson? f.toJson = some f := by
  simp [ofJson?, toJson, FieldType.ofJson?_toJson, Origin.ofJson?_name,
    optional_self f.filter FieldFilter.ofJson?_toJson nofun]

/-! ### Entities -/

theorem Key.ofJson?_toJson (k : Key) : ofJson? k.toJson = some k := by
  simp [ofJson?, toJson]

theorem Index.ofJson?_toJson (i : Index) : ofJson? i.toJson = some i := by
  simp [ofJson?, toJson]

theorem Entity.ofJson?_toJson (e : Entity) : ofJson? e.toJson = some e := by
  simp [ofJson?, toJson, list?_map Field.ofJson?_toJson, list?_map Key.ofJson?_toJson,
    list?_map Index.ofJson?_toJson, optional_self e.labels texts?_ofTexts nofun,
    optional_self e.allocationSize number?_num nofun]

/-! ### Modules, views and methods -/

theorem Module.ofJson?_toJson (m : Module) : ofJson? m.toJson = some m := by
  simp [ofJson?, toJson]

theorem View.ofJson?_toJson (v : View) : ofJson? v.toJson = some v := by
  have hpair : ∀ pair : String × String,
      pairOfJson? (arr [str pair.1, str pair.2]) = some pair := fun _ => rfl
  simp [ofJson?, toJson, list?_map hpair]

theorem Parameter.ofJson?_toJson (p : Parameter) : ofJson? p.toJson = some p := by
  simp [ofJson?, toJson]

theorem QueryRule.ofJson?_toJson (r : QueryRule) : ofJson? r.toJson = some r := by
  simp [ofJson?, toJson]

theorem Query.ofJson?_toJson (q : Query) : ofJson? q.toJson = some q := by
  simp [ofJson?, toJson, list?_map QueryRule.ofJson?_toJson]

theorem Method.ofJson?_toJson (m : Method) : ofJson? m.toJson = some m := by
  simp [ofJson?, toJson, list?_map Parameter.ofJson?_toJson,
    optional_self m.query Query.ofJson?_toJson nofun]

/-! ### Screens -/

theorem FormView.ofJson?_toJson (v : FormView) : ofJson? v.toJson = some v := by
  cases v <;> rfl

theorem SortOrder.ofJson?_toJson (o : SortOrder) : ofJson? o.toJson = some o := by
  cases o <;> rfl

theorem SortOrder.toJson_ne_null (o : SortOrder) : o.toJson ≠ null := by
  cases o <;> nofun

theorem FormFilter.ofJson?_toJson (f : FormFilter) : ofJson? f.toJson = some f := by
  simp [ofJson?, toJson]

theorem ScreenKind.ofJson?_toJson (k : ScreenKind) : ofJson? k.toJson = some k := by
  cases k with
  | root => rfl
  | menu position => simp [ofJson?, toJson, kind?]
  | form f =>
    simp [ofJson?, toJson, kind?, Form.ofJson?, Form.members, FormView.ofJson?_toJson,
      optional_self f.sortOrder SortOrder.ofJson?_toJson SortOrder.toJson_ne_null,
      optional_self f.filter FormFilter.ofJson?_toJson nofun]
  | tree t => simp [ofJson?, toJson, kind?, Tree.ofJson?, Tree.members]
  | plugin p => simp [ofJson?, toJson, kind?, Plugin.ofJson?, Plugin.members]

mutual

theorem Screen.ofJson?_toJson : ∀ s : Screen, ofJson? s.toJson = some s
  | ⟨name, label, scope, group, groupRead, kind, children⟩ => by
    simp [ofJson?, toJson, childrenIn?, ofItems?, ScreenKind.ofJson?_toJson,
      Screen.ofJsons?_toJsons children]

theorem Screen.ofJsons?_toJsons : ∀ screens : List Screen, ofJsons? (toJsons screens) = some screens
  | [] => rfl
  | s :: rest => by
    simp [ofJsons?, toJsons, Screen.ofJson?_toJson s, Screen.ofJsons?_toJsons rest]

end

/-! ### Models -/

theorem Model.ofJson?_toJson (m : Model) : ofJson? m.toJson = some m := by
  simp [ofJson?, toJson, list?_map Entity.ofJson?_toJson, list?_map Module.ofJson?_toJson,
    list?_map View.ofJson?_toJson, list?_map Method.ofJson?_toJson, Screen.ofJson?_toJson]

theorem Warning.ofJson?_toJson (w : Warning) : ofJson? w.toJson = some w := by
  obtain ⟨kind, message⟩ := w
  cases kind <;> rfl

theorem Compiled.ofJson?_toJson (c : Compiled) : ofJson? c.toJson = some c := by
  simp [ofJson?, toJson, Model.ofJson?_toJson, list?_map Warning.ofJson?_toJson]

/-- A compiled model is read back from its report as JSON; so reports of different models
differ. -/
theorem Report.read_json (c : Compiled) :
    (Json.read? (Report.render c .json)).bind Compiled.ofJson? = some c ∧
      ∀ d, Report.render d .json = Report.render c .json → d = c := by
  have hread : ∀ c, (Json.read? (Report.render c .json)).bind Compiled.ofJson? = some c := by
    intro c
    have hblank : ∀ ch ∈ ("\n" : String).toList, Json.isBlank ch :=
      List.forall_mem_singleton.mpr rfl
    show (Json.read? (c.toJson.pretty ++ "\n")).bind Compiled.ofJson? = some c
    rw [Json.read?_pretty hblank, Option.bind_some, Compiled.ofJson?_toJson]
  refine ⟨hread c, fun d hsame => ?_⟩
  have hboth : some d = some c := by rw [← hread d, hsame, hread c]
  exact Option.some.inj hboth

end EntitySchema
