import EntitySchema.FieldCase
import EntitySchema.Proofs.Growth
import EntitySchema.Proofs.LowerText

/-! Putting fields in lower case. When no two names coincide in lower case, the names
of all fields are put in lower case, and the keys, indices and labels of an entity
follow the entity's own fields. A name that the entity inherits stays as it is. -/

namespace EntitySchema.FieldCase

open Model (Evolves)
open Entity (SameStanding isChange_sameStanding)

variable {m m' : Model} {e e' : Entity}

/-- The field with its name in lower case. -/
def lowerField (f : Field) : Field := { f with name := Text.lower f.name }

/-- The names of these fields that are not in lower case. -/
def mixed (fields : List Field) : List String :=
  (fields.map (·.name)).filter fun name => name ≠ Text.lower name

/-- What becomes of a name when these fields are put in lower case. -/
def follow (fields : List Field) (name : String) : String :=
  if name ∈ mixed fields then Text.lower name else name

/-- The entity with other fields, whose names are put in lower case elsewhere. -/
def following (fields renamed : List Field) (e : Entity) : Entity :=
  { e with
    fields := renamed
    keys := e.keys.map fun key => { key with fields := key.fields.map (follow fields) }
    indices := e.indices.map fun index => { index with fields := index.fields.map (follow fields) }
    labels := e.labels.map fun labels => labels.map (follow fields) }

/-- The entity with all fields in lower case. -/
def lowered (e : Entity) : Entity := following e.fields (e.fields.map lowerField) e

theorem lowerField_of_not_mixed {f : Field} (h : Text.lower f.name = f.name) :
    lowerField f = f := by
  unfold lowerField
  rw [h]

theorem mixed_cons (f : Field) (rest : List Field) : mixed (f :: rest) =
    if f.name ≠ Text.lower f.name then f.name :: mixed rest else mixed rest := by
  simp only [mixed, List.map_cons, List.filter_cons, decide_eq_true_eq]

theorem follow_nil (name : String) : follow [] name = name := by simp [follow, mixed]

theorem lower_follow (fields : List Field) (name : String) :
    Text.lower (follow fields name) = Text.lower name := by
  unfold follow
  split
  · exact Text.lower_lower name
  · rfl

theorem mem_mixed {fields : List Field} {name : String} :
    name ∈ mixed fields ↔ (∃ f ∈ fields, f.name = name) ∧ name ≠ Text.lower name := by
  simp [mixed, List.mem_filter]

/-- Once a field has its new name, other fields follow as if it had not been there. -/
theorem follow_rename {f : Field} {rest : List Field} (hmixed : f.name ≠ Text.lower f.name)
    (hfresh : ∀ g ∈ rest, g.name ≠ Text.lower f.name) (name : String) :
    follow rest (Entity.rename f.name (Text.lower f.name) name) = follow (f :: rest) name := by
  unfold follow Entity.rename
  rw [mixed_cons, if_pos hmixed]
  by_cases hname : name = f.name
  · have hnew : Text.lower f.name ∉ mixed rest := by
      rw [mem_mixed]
      rintro ⟨⟨g, hg, heq⟩, _⟩
      exact hfresh g hg heq
    rw [if_pos hname, if_neg hnew, hname, if_pos List.mem_cons_self]
  · rw [if_neg hname]
    simp only [List.mem_cons, hname, false_or]

theorem changeFirst_append {α : Type} {test : α → Bool} {change : α → α} {x : α} {rest : List α}
    (hx : test x = true) : ∀ {done : List α}, (∀ y ∈ done, test y = false) →
      changeFirst test change (done ++ x :: rest) = done ++ change x :: rest
  | [], _ => by simp [changeFirst, hx]
  | y :: done, h => by
    simp only [List.cons_append, changeFirst, h y List.mem_cons_self, Bool.false_eq_true, if_false]
    rw [changeFirst_append hx fun z hz => h z (List.mem_cons_of_mem _ hz)]

/-- The fields are renamed from left to right. No field that is done has the name
of one that is still to be renamed, so each round changes the field it is about. -/
theorem lowerNames_ok : ∀ {todo done : List Field} {e e' : Entity}, e.fields = done ++ todo →
    (∀ f ∈ done, f.name ∉ mixed todo) → lowerNames (mixed todo) e = (e', .ok ()) →
    e' = following todo (done ++ todo.map lowerField) e
  | [], done, e, e', hfields, _, h => by
    cases h
    have hid : follow [] = id := funext follow_nil
    simp [following, ← hfields, hid]
  | f :: rest, done, e, e', hfields, hdone, h => by
    by_cases hmixed : f.name ≠ Text.lower f.name
    · rw [mixed_cons, if_pos hmixed] at h hdone
      unfold lowerNames at h
      dsimp only at h
      split at h
      · cases h
      · next htaken =>
        -- the new name is free, so no field that follows is taken for this one
        have hfresh : ∀ g ∈ e.fields, g.name ≠ Text.lower f.name := by
          simpa [Entity.hasField] using htaken
        rw [hfields] at hfresh
        have hrest : ∀ g ∈ rest, g.name ≠ Text.lower f.name := fun g hg => hfresh g (by simp [hg])
        have hrenamed : (e.renameField f.name (Text.lower f.name)).fields =
            (done ++ [lowerField f]) ++ rest := by
          unfold Entity.renameField
          rw [hfields, changeFirst_append (by simp)]
          · simp [lowerField]
          · intro g hg
            have hne : g.name ≠ f.name := fun heq => hdone g hg (heq ▸ List.mem_cons_self)
            simp [hne]
        rw [lowerNames_ok hrenamed ?_ h]
        · have hfollow : follow rest ∘ Entity.rename f.name (Text.lower f.name) =
              follow (f :: rest) := funext (follow_rename hmixed hrest)
          simp [following, Entity.renameField, Function.comp_def, ← hfollow]
        · intro g hg
          rcases List.mem_append.mp hg with hg | hg
          · exact fun h => hdone g hg (List.mem_cons_of_mem _ h)
          · rw [List.mem_singleton.mp hg, mem_mixed]
            rintro ⟨⟨g', hg', heq⟩, -⟩
            exact hrest g' hg' heq
    · have hlower : Text.lower f.name = f.name := by simpa [eq_comm] using hmixed
      rw [mixed_cons, if_neg hmixed] at h hdone
      have hsame : follow (f :: rest) = follow rest := by
        funext name
        rw [follow, mixed_cons, if_neg hmixed, follow]
      have hfields : e.fields = (done ++ [f]) ++ rest := by rw [hfields]; simp
      rw [lowerNames_ok hfields ?_ h]
      · simp [following, hsame, lowerField_of_not_mixed hlower]
      · intro g hg
        rcases List.mem_append.mp hg with hg | hg
        · exact hdone g hg
        · rw [List.mem_singleton.mp hg, mem_mixed]
          exact fun h => hmixed h.2

theorem lowerNames_eq (h : lowerNames (mixedNames e) e = (e', .ok ())) : e' = lowered e := by
  have hfields : e.fields = [] ++ e.fields := rfl
  rw [lowerNames_ok hfields (by simp) h]
  rfl

theorem lowerEntities_eq : ∀ {es es' : List Entity}, lowerEntities es = (es', .ok ()) →
    es' = es.map lowered
  | [], _, h => by cases h; rfl
  | e :: rest, es', h => by
    unfold lowerEntities at h
    split at h
    · cases h
    · next changed hchanged =>
      rcases hothers : lowerEntities rest with ⟨others, outcome⟩
      rw [hothers] at h
      cases h
      rw [lowerNames_eq hchanged, lowerEntities_eq hothers, List.map_cons]

/-- A field with its name and its reference in lower case. -/
def corrected (f : Field) : Field :=
  { lowerField f with type := f.type.mapTarget lowerTarget }

/-- The entity with all that it says about fields in lower case. -/
def correctedEntity (e : Entity) : Entity :=
  { lowered e with fields := e.fields.map corrected }

/-- When the fields of no entity get in each other's way, all of them are corrected. -/
theorem correct_ok {u : Unit} (h : Ends correct m u m') :
    m' = { m with entities := m.entities.map correctedEntity } := by
  have h := h.get_bind
  rcases houtcome : lowerEntities m.entities with ⟨entities, outcome⟩
  rw [houtcome] at h
  obtain ⟨_, hok, h⟩ := h.set_bind.lift_bind
  rw [Except.mapError_ok hok] at houtcome
  rw [Pass.change_ends h, lowerEntities_eq houtcome]
  simp [lowerReferences, correctedEntity, corrected, lowered, following, lowerField]

theorem outline_corrected (f : Field) : (corrected f).outline = (lowerField f).outline := by
  rcases f with ⟨_, _, type⟩
  cases type <;> rfl

theorem correct_standing {u : Unit} (h : Ends correct m u m') : Evolves SameStanding [] m m' :=
  .map (congrArg Model.entities (correct_ok h)) fun _ _ => ⟨rfl, rfl, rfl, rfl⟩

/-- Every entity is found again, corrected. -/
theorem correct_entity? {u : Unit} (h : Ends correct m u m') {name : String}
    (he : m.entity? name = some e) : m'.entity? name = some (correctedEntity e) := by
  obtain rfl := correct_ok h
  unfold Model.entity? at he ⊢
  rw [List.find?_map, Function.comp_def]
  have hname : ∀ e : Entity, (correctedEntity e).name = e.name := fun _ => rfl
  simp only [hname, he, Option.map_some]

end EntitySchema.FieldCase
