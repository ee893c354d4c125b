import EntitySchema.Proofs.Run
import Mathlib.Data.List.Nodup
import Mathlib.Data.List.Forall2

/-! How a model evolves. A pass leaves every entity in its place, related to what it
was, and may add entities behind the others. The relation between an entity and
what it becomes is a parameter; it has to keep names, so that an entity is still
found under its name. -/

namespace EntitySchema

/-! ### Changing one item of a list -/

/-- Only the item that the test finds is changed. -/
theorem forall₂_changeFirst {α : Type} {R : α → α → Prop} {test : α → Bool} {change : α → α}
    (hrefl : ∀ a, R a a) : ∀ {xs : List α}, (∀ a, xs.find? test = some a → R a (change a)) →
      List.Forall₂ R xs (changeFirst test change xs)
  | [], _ => .nil
  | x :: xs, h => by
    unfold changeFirst
    cases hx : test x with
    | true => exact .cons (h x (by simp [hx])) (List.forall₂_same.mpr fun a _ => hrefl a)
    | false => exact .cons (hrefl x) (forall₂_changeFirst hrefl fun a ha => h a (by simpa [hx]))

theorem forall₂_modify {α : Type} {R : α → α → Prop} {change : α → α} (hrefl : ∀ a, R a a) :
    ∀ {xs : List α} {i : Nat}, (∀ a, xs[i]? = some a → R a (change a)) →
      List.Forall₂ R xs (xs.modify i change)
  | [], i, _ => by simp
  | x :: xs, 0, h => .cons (h x rfl) (List.forall₂_same.mpr fun a _ => hrefl a)
  | x :: xs, i + 1, h => .cons (hrefl x) (forall₂_modify hrefl fun a ha => h a ha)

theorem changeFirst_map {α β : Type} {test : α → Bool} {change : α → α} (g : α → β)
    (h : ∀ a, test a = true → g (change a) = g a) :
    ∀ xs : List α, (changeFirst test change xs).map g = xs.map g
  | [] => rfl
  | x :: xs => by
    unfold changeFirst
    split
    · next hx => simp [h x hx]
    · simp [changeFirst_map g h xs]

/-- When the items of a list can be told apart, each of them is found. -/
theorem find?_of_mem {α β : Type} [DecidableEq β] {g : α → β} {xs : List α} {x : α}
    (hnodup : (xs.map g).Nodup) (hx : x ∈ xs) : xs.find? (fun a => g a = g x) = some x := by
  obtain ⟨found, hfound⟩ : ∃ found, xs.find? (fun a => g a = g x) = some found :=
    Option.isSome_iff_exists.mp (List.find?_isSome.mpr ⟨x, hx, by simp⟩)
  have hsame : g found = g x := by simpa using List.find?_some hfound
  rw [hfound, List.inj_on_of_nodup_map hnodup (List.mem_of_find?_eq_some hfound) hx hsame]

/-- When the test can tell one item from the others, it is as if each were tested for itself. -/
theorem changeFirst_eq_map {α β : Type} [DecidableEq β] {g : α → β} {b : β} {change : α → α} :
    ∀ {xs : List α}, (xs.map g).Nodup →
      changeFirst (fun a => g a = b) change xs = xs.map fun a => if g a = b then change a else a
  | [], _ => rfl
  | x :: xs, hnodup => by
    obtain ⟨hx, hnodup⟩ := List.nodup_cons.mp hnodup
    unfold changeFirst
    rw [List.map_cons]
    by_cases hfound : g x = b
    · have hothers : (xs.map fun a => if g a = b then change a else a) = xs := by
        refine (List.map_congr_left fun a ha => if_neg fun heq => hx ?_).trans (List.map_id xs)
        exact List.mem_map.mpr ⟨a, ha, heq.trans hfound.symm⟩
      simp [hfound, hothers]
    · simp [hfound, changeFirst_eq_map hnodup]

/-- When the test can tell one item from the others, only that one is changed. -/
theorem mem_changeFirst {α β : Type} [DecidableEq β] {g : α → β} {b : β} {change : α → α} {x : α}
    {xs : List α} (hnodup : (xs.map g).Nodup) (h : x ∈ changeFirst (fun a => g a = b) change xs) :
    (∃ a, xs.find? (fun a => g a = b) = some a ∧ x = change a) ∨ x ∈ xs ∧ g x ≠ b := by
  rw [changeFirst_eq_map hnodup] at h
  obtain ⟨a, ha, rfl⟩ := List.mem_map.mp h
  by_cases hb : g a = b
  · exact .inl ⟨a, hb ▸ find?_of_mem hnodup ha, if_pos hb⟩
  · rw [if_neg hb]
    exact .inr ⟨ha, hb⟩

/-- An item of the changed list was there before, or is the one that was changed. -/
theorem exists_of_mem_changeFirst {α : Type} {test : α → Bool} {change : α → α} {x : α} :
    ∀ {xs : List α}, x ∈ changeFirst test change xs →
      x ∈ xs ∨ ∃ a, xs.find? test = some a ∧ x = change a
  | y :: ys, h => by
    unfold changeFirst at h
    split at h
    · next hy =>
      rcases List.mem_cons.mp h with rfl | h
      · exact .inr ⟨y, by simp [hy], rfl⟩
      · exact .inl (List.mem_cons_of_mem _ h)
    · next hy =>
      rcases List.mem_cons.mp h with rfl | h
      · exact .inl List.mem_cons_self
      · rcases exists_of_mem_changeFirst h with h | ⟨a, ha, hx⟩
        · exact .inl (List.mem_cons_of_mem _ h)
        · exact .inr ⟨a, by simp [hy, ha], hx⟩

/-- Related lists that agree under a test are searched with related outcomes. -/
theorem find?_forall₂ {α : Type} {R : α → α → Prop} {test : α → Bool}
    (htest : ∀ a b, R a b → test b = test a) :
    ∀ {xs ys : List α}, List.Forall₂ R xs ys → ∀ {a}, xs.find? test = some a →
      ∃ b, ys.find? test = some b ∧ R a b
  | _, _, .cons (a := x) (b := y) hxy hrest, a, h => by
    rw [List.find?_cons] at h ⊢
    rw [htest x y hxy]
    cases hx : test x with
    | true => rw [hx] at h; cases h; exact ⟨y, rfl, hxy⟩
    | false => rw [hx] at h; exact find?_forall₂ htest hrest h

/-! ### Related lists -/

theorem forall₂_trans {α : Type} {R : α → α → Prop}
    (htrans : ∀ {a b c}, R a b → R b c → R a c) :
    ∀ {xs ys zs : List α}, List.Forall₂ R xs ys → List.Forall₂ R ys zs → List.Forall₂ R xs zs
  | _, _, _, .nil, .nil => .nil
  | _, _, _, .cons h hs, .cons h' hs' => .cons (htrans h h') (forall₂_trans (R := R) htrans hs hs')

theorem map_eq_of_forall₂ {α β : Type} {R : α → α → Prop} {g : α → β}
    (hg : ∀ a b, R a b → g b = g a) :
    ∀ {xs ys : List α}, List.Forall₂ R xs ys → ys.map g = xs.map g
  | _, _, .nil => rfl
  | _, _, .cons h hs => by simp [hg _ _ h, map_eq_of_forall₂ hg hs]

theorem flatMap_eq_of_forall₂ {α β : Type} {R : α → α → Prop} {g : α → List β} {xs ys : List α}
    (hg : ∀ a b, R a b → g b = g a) (h : List.Forall₂ R xs ys) : ys.flatMap g = xs.flatMap g := by
  rw [List.flatMap_def, List.flatMap_def, map_eq_of_forall₂ hg h]

/-- Lists that a function maps to the same list correspond to each other, item by item. -/
theorem forall₂_of_map_eq {α β : Type} {g : α → β} {xs ys : List α} (h : ys.map g = xs.map g) :
    List.Forall₂ (fun x y => g y = g x) xs ys := by
  have hmap : List.Forall₂ (fun a b => b = a) (xs.map g) (ys.map g) :=
    h ▸ List.forall₂_same.mpr fun _ _ => rfl
  rwa [List.forall₂_map_left_iff, List.forall₂_map_right_iff] at hmap

theorem exists_of_forall₂_left {α β : Type} {R : α → β → Prop} :
    ∀ {xs : List α} {ys : List β}, List.Forall₂ R xs ys → ∀ {x}, x ∈ xs → ∃ y ∈ ys, R x y
  | _, _, .cons h hs, x, hx => by
    rcases List.mem_cons.mp hx with rfl | hx
    · exact ⟨_, List.mem_cons_self, h⟩
    · obtain ⟨y, hy, hxy⟩ := exists_of_forall₂_left hs hx
      exact ⟨y, List.mem_cons_of_mem _ hy, hxy⟩

theorem exists_of_forall₂_right {α β : Type} {R : α → β → Prop} {xs : List α} {ys : List β}
    (h : List.Forall₂ R xs ys) {y : β} (hy : y ∈ ys) : ∃ x ∈ xs, R x y :=
  exists_of_forall₂_left h.flip hy

theorem getElem?_of_forall₂ {α β : Type} {R : α → β → Prop} : ∀ {xs : List α} {ys : List β},
    List.Forall₂ R xs ys → ∀ {i : Nat} {x : α}, xs[i]? = some x → ∃ y, ys[i]? = some y ∧ R x y
  | _, _, .cons h _, 0, x, hx => by cases hx; exact ⟨_, rfl, h⟩
  | _, _, .cons _ hs, i + 1, x, hx => getElem?_of_forall₂ hs hx

/-! ### Looking up entities -/

namespace Model

theorem entity?_name {m : Model} {name : String} {e : Entity} (h : m.entity? name = some e) :
    e.name = name := by simpa using List.find?_some h

theorem entity?_mem {m : Model} {name : String} {e : Entity} (h : m.entity? name = some e) :
    e ∈ m.entities := List.mem_of_find?_eq_some h

/-- The entity that a look-up finds is found under its own name. -/
theorem entity?_self {m : Model} {name : String} {e : Entity} (h : m.entity? name = some e) :
    m.entity? e.name = some e := by rwa [entity?_name h]

/-- When no two entities share a name, every entity is found under its name. -/
theorem entity?_of_mem {m : Model} (hnodup : m.entityNames.Nodup) {e : Entity}
    (he : e ∈ m.entities) : m.entity? e.name = some e :=
  find?_of_mem hnodup he

theorem hasEntity_iff {m : Model} {name : String} :
    m.hasEntity name = true ↔ ∃ e, m.entity? name = some e := by
  simp [hasEntity, entity?, List.any_eq_true, ← Option.isSome_iff_exists, List.find?_isSome]

theorem mem_entityNames {m : Model} {name : String} :
    name ∈ m.entityNames ↔ ∃ e, m.entity? name = some e := by
  rw [← hasEntity_iff]
  simp [hasEntity, entityNames, List.any_eq_true]

theorem entity?_changeEntity {m : Model} {name : String} {change : Entity → Entity} {e : Entity}
    (he : m.entity? name = some e) (hname : (change e).name = e.name) :
    (m.changeEntity name change).entity? name = some (change e) := by
  have hchanged : (change e).name = name := hname.trans (entity?_name he)
  have hfind : ∀ xs : List Entity, xs.find? (·.name = name) = some e →
      (changeFirst (·.name = name) change xs).find? (·.name = name) = some (change e) := by
    intro xs
    induction xs with
    | nil => intro h; cases h
    | cons x rest ih =>
      intro h
      unfold changeFirst
      rw [List.find?_cons] at h
      split at h
      · next hx => cases h; simp [hx, hchanged]
      · next hx => simp only [hx, Bool.false_eq_true, if_false, List.find?_cons, ih h]
  exact hfind _ he

/-- Changing an entity leaves those of other names alone. -/
theorem entity?_changeEntity_of_ne {m : Model} {name other : String} {change : Entity → Entity}
    (hname : ∀ e, m.entity? name = some e → (change e).name = name) (hne : other ≠ name) :
    (m.changeEntity name change).entity? other = m.entity? other := by
  have hfind : ∀ xs : List Entity,
      (∀ e, xs.find? (·.name = name) = some e → (change e).name = name) →
      (changeFirst (·.name = name) change xs).find? (·.name = other) =
        xs.find? (·.name = other) := by
    intro xs
    induction xs with
    | nil => exact fun _ => rfl
    | cons x rest ih =>
      intro h
      unfold changeFirst
      rw [List.find?_cons] at h
      split
      · next hx =>
        have hold : x.name ≠ other := fun heq => hne (heq.symm.trans (of_decide_eq_true hx))
        have hnew : (change x).name ≠ other := fun heq =>
          hne (heq.symm.trans (h x (by rw [hx])))
        simp [hold, hnew]
      · next hx =>
        rw [List.find?_cons, List.find?_cons, ih (by simpa [hx] using h)]
  exact hfind _ hname

theorem entityNames_changeEntity {m : Model} {name : String} {change : Entity → Entity}
    (h : ∀ e, (change e).name = e.name) :
    (m.changeEntity name change).entityNames = m.entityNames :=
  changeFirst_map _ (fun e _ => h e) _

/-- When names are different, a change goes to all entities of the name. -/
theorem changeEntity_map {m : Model} {name : String} {change : Entity → Entity}
    (hnodup : m.entityNames.Nodup) :
    m.changeEntity name change =
      { m with entities := m.entities.map fun e => if e.name = name then change e else e } := by
  unfold changeEntity
  rw [changeFirst_eq_map hnodup]

theorem addEntity_ok {m m' : Model} {e : Entity} (h : m.addEntity e = .ok m') :
    m.hasEntity e.name = false ∧ m' = { m with entities := m.entities ++ [e] } := by
  unfold addEntity at h
  split at h
  · cases h
  · next hnew => cases h; exact ⟨by simpa using hnew, rfl⟩

/-- The entity that was added is found. -/
theorem entity?_addEntity {m m' : Model} {e : Entity} (h : m.addEntity e = .ok m') :
    m'.entity? e.name = some e := by
  obtain ⟨hnew, rfl⟩ := addEntity_ok h
  have hnone : m.entities.find? (·.name = e.name) = none := by
    simpa [hasEntity, List.find?_eq_none] using hnew
  simp [entity?, List.find?_append, hnone]

theorem mem_changeEntity {m : Model} (hnodup : m.entityNames.Nodup) {name : String}
    {change : Entity → Entity} {e' : Entity} (h : e' ∈ (m.changeEntity name change).entities) :
    (∃ e, m.entity? name = some e ∧ e' = change e) ∨ e' ∈ m.entities ∧ e'.name ≠ name :=
  mem_changeFirst hnodup h

/-- An entity after an attempt to change one is the one changed, or another. -/
theorem mem_tryEntity {m m' : Model} (hnodup : m.entityNames.Nodup) {ε : Type} {name : String}
    {change : Entity → Except ε Entity} (h : m.tryEntity name change = .ok m') {e' : Entity}
    (he' : e' ∈ m'.entities) :
    (∃ e, m.entity? name = some e ∧ change e = .ok e') ∨ e' ∈ m.entities ∧ e'.name ≠ name := by
  unfold tryEntity at h
  split at h
  · next hnone =>
    cases h
    refine .inr ⟨he', fun hname => ?_⟩
    rw [← hname, entity?_of_mem hnodup he'] at hnone
    cases hnone
  · next e he =>
    obtain ⟨changed, hchanged, h⟩ := Except.bind_ok h
    cases h
    rcases mem_changeEntity hnodup he' with ⟨_, _, rfl⟩ | hother
    · exact .inl ⟨e, he, hchanged⟩
    · exact .inr hother

end Model

/-- A relation between an entity and what it becomes, in any number of steps. -/
structure Entity.IsChange (R : Entity → Entity → Prop) : Prop where
  refl : ∀ e, R e e
  trans : ∀ {e₁ e₂ e₃}, R e₁ e₂ → R e₂ e₃ → R e₁ e₃
  name : ∀ {e e'}, R e e' → e'.name = e.name

theorem Entity.isChange_eq : IsChange Eq := ⟨fun _ => rfl, Eq.trans, fun h => h ▸ rfl⟩

/-- Only the entity of this name may become another. -/
def Entity.OnlyAt (name : String) (e e' : Entity) : Prop :=
  e'.name = e.name ∧ (e.name ≠ name → e' = e)

theorem Entity.isChange_onlyAt (name : String) : IsChange (OnlyAt name) where
  refl _ := ⟨rfl, fun _ => rfl⟩
  trans := by
    rintro e₁ e₂ e₃ ⟨hname, hsame⟩ ⟨hname', hsame'⟩
    exact ⟨hname'.trans hname, fun hne => (hsame' (hname ▸ hne)).trans (hsame hne)⟩
  name h := h.1

namespace Model

open Entity (IsChange)

/-- The entities of `m` are kept, each changed as `R` says, and behind them stand
entities of the names `added`, which are new. -/
def Evolves (R : Entity → Entity → Prop) (added : List String) (m m' : Model) : Prop :=
  ∃ kept new, m'.entities = kept ++ new ∧ List.Forall₂ R m.entities kept ∧
    new.map (·.name) = added ∧ added.Nodup ∧ m.entityNames.Disjoint added

namespace Evolves

variable {R S : Entity → Entity → Prop} {m m₁ m₂ : Model} {added added₁ added₂ : List String}

theorem of_forall₂ (h : List.Forall₂ R m.entities m₁.entities) : Evolves R [] m m₁ :=
  ⟨m₁.entities, [], by simp, h, rfl, .nil, by simp⟩

/-- When nothing is added, a change that can be undone is undone. -/
theorem symm (hR : ∀ e e', R e e' → R e' e) (h : Evolves R [] m m₁) : Evolves R [] m₁ m := by
  obtain ⟨kept, new, heq, hkept, hnew, -⟩ := h
  obtain rfl := List.map_eq_nil_iff.mp hnew
  refine of_forall₂ ?_
  rw [heq, List.append_nil]
  exact hkept.flip.imp fun e' e h => hR e e' h

theorem mono (h : Evolves R added m m₁) (hRS : ∀ a b, R a b → S a b) : Evolves S added m m₁ := by
  obtain ⟨kept, new, he, hk, hn⟩ := h
  exact ⟨kept, new, he, hk.imp hRS, hn⟩

theorem of_eq (hR : IsChange R) (h : m₁.entities = m.entities) : Evolves R [] m m₁ :=
  of_forall₂ (h ▸ List.forall₂_same.mpr fun e _ => hR.refl e)

theorem refl (hR : IsChange R) (m : Model) : Evolves R [] m m := of_eq hR rfl

/-- Every entity is changed by a function. -/
theorem map {f : Entity → Entity} (h : m₁.entities = m.entities.map f)
    (hf : ∀ e ∈ m.entities, R e (f e)) : Evolves R [] m m₁ := by
  refine of_forall₂ ?_
  rw [h, List.forall₂_map_right_iff]
  exact List.forall₂_same.mpr hf

theorem changeEntity (hR : IsChange R) {name : String} {change : Entity → Entity}
    (h : ∀ e, m.entity? name = some e → R e (change e)) :
    Evolves R [] m (m.changeEntity name change) :=
  of_forall₂ (forall₂_changeFirst hR.refl h)

/-- An entity that is found is changed. -/
theorem changeEntity_at (hR : IsChange R) {name : String} {change : Entity → Entity} {e : Entity}
    (he : m.entity? name = some e) (h : R e (change e)) :
    Evolves R [] m (m.changeEntity name change) :=
  changeEntity hR fun x hx => by
    rw [he] at hx
    cases hx
    exact h

theorem changeEntity_onlyAt {name : String} {change : Entity → Entity}
    (h : ∀ e, (change e).name = e.name) :
    Evolves (Entity.OnlyAt name) [] m (m.changeEntity name change) :=
  changeEntity (Entity.isChange_onlyAt name) fun e he =>
    ⟨h e, fun hne => absurd (entity?_name he) hne⟩

theorem tryEntity (hR : IsChange R) {ε : Type} {name : String}
    {change : Entity → Except ε Entity} (h : m.tryEntity name change = .ok m₁)
    (hc : ∀ e e', m.entity? name = some e → change e = .ok e' → R e e') : Evolves R [] m m₁ := by
  unfold Model.tryEntity at h
  split at h
  · cases h; exact refl hR m
  · next e he =>
    obtain ⟨e', he', h⟩ := Except.bind_ok h
    cases h
    exact changeEntity_at hR he (hc e e' he he')

theorem addEntity (hR : IsChange R) {e : Entity} (h : m.addEntity e = .ok m₁) :
    Evolves R [e.name] m m₁ := by
  obtain ⟨hnew, rfl⟩ := addEntity_ok h
  rw [← Bool.not_eq_true, hasEntity_iff, ← mem_entityNames] at hnew
  exact ⟨m.entities, [e], rfl, List.forall₂_same.mpr fun x _ => hR.refl x, rfl,
    List.nodup_singleton _, by simpa using hnew⟩

theorem entityNames (hR : IsChange R) (h : Evolves R added m m₁) :
    m₁.entityNames = m.entityNames ++ added := by
  obtain ⟨kept, new, he, hk, hn, -⟩ := h
  unfold Model.entityNames
  rw [he, List.map_append, hn, map_eq_of_forall₂ (R := R) (fun _ _ => hR.name) hk]

theorem trans (hR : IsChange R) (h₁ : Evolves R added₁ m m₁) (h₂ : Evolves R added₂ m₁ m₂) :
    Evolves R (added₁ ++ added₂) m m₂ := by
  have hnames := h₁.entityNames hR
  obtain ⟨kept₁, new₁, he₁, hk₁, hn₁, hnodup₁, hdisjoint₁⟩ := h₁
  obtain ⟨kept₂, new₂, he₂, hk₂, hn₂, hnodup₂, hdisjoint₂⟩ := h₂
  rw [he₁] at hk₂
  rw [hnames, List.disjoint_append_left] at hdisjoint₂
  have hkept : List.Forall₂ R kept₁ (kept₂.take kept₁.length) := by
    simpa using List.forall₂_take kept₁.length hk₂
  have hnew : List.Forall₂ R new₁ (kept₂.drop kept₁.length) := by
    simpa using List.forall₂_drop kept₁.length hk₂
  refine ⟨kept₂.take kept₁.length, kept₂.drop kept₁.length ++ new₂, ?_, ?_, ?_, ?_, ?_⟩
  · rw [he₂, ← List.append_assoc, List.take_append_drop]
  · exact forall₂_trans (R := R) hR.trans hk₁ hkept
  · rw [List.map_append, hn₂, ← hn₁, map_eq_of_forall₂ (R := R) (fun _ _ => hR.name) hnew]
  · exact hnodup₁.append hnodup₂ hdisjoint₂.2
  · exact List.disjoint_append_right.mpr ⟨hdisjoint₁, hdisjoint₂.1⟩

/-- A change that adds nothing, after one that may. -/
theorem trans_nil (hR : IsChange R) (h₁ : Evolves R added m m₁) (h₂ : Evolves R [] m₁ m₂) :
    Evolves R added m m₂ := by simpa using h₁.trans hR h₂

theorem nodup (hR : IsChange R) (h : Evolves R added m m₁) (hm : m.entityNames.Nodup) :
    m₁.entityNames.Nodup := by
  rw [h.entityNames hR]
  obtain ⟨_, _, _, _, _, hnodup, hdisjoint⟩ := h
  exact hm.append hnodup hdisjoint

/-- No name that is added was there before. -/
theorem fresh (h : Evolves R added m m₁) {name : String} (hname : name ∈ added) :
    name ∉ m.entityNames := by
  obtain ⟨_, _, _, _, _, _, hdisjoint⟩ := h
  exact fun hold => hdisjoint hold hname

/-- An entity is found where it was, as what it became. -/
theorem entity? (hR : IsChange R) (h : Evolves R added m m₁) {name : String} {e : Entity}
    (he : m.entity? name = some e) : ∃ e', m₁.entity? name = some e' ∧ R e e' := by
  obtain ⟨kept, new, heq, hk, -⟩ := h
  have hfind : ∀ a b, R a b → decide (b.name = name) = decide (a.name = name) :=
    fun a b hab => by rw [hR.name hab]
  obtain ⟨e', he', hR'⟩ := find?_forall₂ (R := R) hfind hk he
  exact ⟨e', by simp [Model.entity?, heq, List.find?_append, he'], hR'⟩

/-- An entity keeps its number. -/
theorem entityAt (h : Evolves R added m m₁) {i : Nat} {e : Entity} (he : m.entities[i]? = some e) :
    ∃ e', m₁.entities[i]? = some e' ∧ R e e' := by
  obtain ⟨kept, new, heq, hk, -⟩ := h
  obtain ⟨e', he', hR⟩ := getElem?_of_forall₂ hk he
  obtain ⟨hlt, -⟩ := List.getElem?_eq_some_iff.mp he'
  exact ⟨e', by rw [heq, List.getElem?_append_left hlt, he'], hR⟩

/-- An entity was there before, or is one of those added. -/
theorem mem (h : Evolves R added m m₁) {e' : Entity} (he : e' ∈ m₁.entities) :
    (∃ e ∈ m.entities, R e e') ∨ e'.name ∈ added := by
  obtain ⟨kept, new, heq, hk, rfl, -⟩ := h
  rw [heq, List.mem_append] at he
  rcases he with he | he
  · exact .inl (exists_of_forall₂_right hk he)
  · exact .inr (List.mem_map_of_mem he)

/-- What was there is still there, as what it became. -/
theorem kept (h : Evolves R added m m₁) {e : Entity} (he : e ∈ m.entities) :
    ∃ e' ∈ m₁.entities, R e e' := by
  obtain ⟨kept, new, heq, hk, -⟩ := h
  obtain ⟨e', he', hR⟩ := exists_of_forall₂_left hk he
  exact ⟨e', heq ▸ List.mem_append_left _ he', hR⟩

/-- A name that is not added stands for what it stood for. -/
theorem entity?_back (hR : IsChange R) (h : Evolves R added m m₁) {name : String} {e' : Entity}
    (he : m₁.entity? name = some e') (hname : name ∉ added) :
    ∃ e, m.entity? name = some e ∧ R e e' := by
  have hmem : name ∈ m₁.entityNames := mem_entityNames.mpr ⟨e', he⟩
  rw [h.entityNames hR, List.mem_append] at hmem
  obtain ⟨e, hm⟩ := mem_entityNames.mp (hmem.resolve_right hname)
  obtain ⟨e'', he'', hR'⟩ := h.entity? hR hm
  rw [he] at he''
  cases he''
  exact ⟨e, hm, hR'⟩

/-! ### Loops of passes -/

section Loops

variable {ι γ : Type} {xs : List ι}

theorem forM (hR : IsChange R) {k : ι → Pass Unit} {u : Unit}
    (hstep : ∀ x ∈ xs, ∀ m m', Ends (k x) m () m' → Evolves R [] m m')
    (h : Ends (xs.forM k) m u m₁) : Evolves R [] m m₁ :=
  h.forM_keeps (fun m' => Evolves R [] m m')
    (fun x hx _ _ hround hm => hm.trans_nil hR (hstep x hx _ _ hround)) (refl hR m)

theorem foldlM (hR : IsChange R) {f : γ → ι → Pass γ} {c c' : γ}
    (hstep : ∀ x ∈ xs, ∀ c c' m m', Ends (f c x) m c' m' → Evolves R [] m m')
    (h : Ends (xs.foldlM f c) m c' m₁) : Evolves R [] m m₁ :=
  h.foldlM_keeps (fun _ m' => Evolves R [] m m')
    (fun x hx c c' _ _ hround hm => hm.trans_nil hR (hstep x hx c c' _ _ hround)) (refl hR m)

end Loops

end Evolves

/-! ### What holds of every entity -/

/-- Every entity of the model has the property. -/
def All (P : Entity → Prop) (m : Model) : Prop := ∀ e ∈ m.entities, P e

namespace All

variable {P Q : Entity → Prop} {m m₁ : Model}

theorem imp (hm : m.All P) (h : ∀ e, P e → Q e) : m.All Q := fun e he => h e (hm e he)

theorem of_eq (hm : m.All P) (h : m₁.entities = m.entities) : m₁.All P :=
  fun e he => hm e (h ▸ he)

theorem evolves {R : Entity → Entity → Prop} (hm : m.All P) (h : Evolves R [] m m₁)
    (hR : ∀ e e', R e e' → P e → P e') : m₁.All P := by
  intro e' he'
  obtain ⟨e, he, hchange⟩ := (h.mem he').resolve_right (by simp)
  exact hR e e' hchange (hm e he)

theorem changeEntity {name : String} {change : Entity → Entity} (hm : m.All P)
    (h : ∀ e, m.entity? name = some e → P e → P (change e)) :
    (m.changeEntity name change).All P := by
  intro e' he'
  rcases exists_of_mem_changeFirst he' with he | ⟨e, he, rfl⟩
  · exact hm e' he
  · exact h e he (hm e (entity?_mem he))

theorem addEntity {e : Entity} (hm : m.All P) (he : P e) (h : m.addEntity e = .ok m₁) :
    m₁.All P := by
  obtain ⟨_, rfl⟩ := addEntity_ok h
  intro x hx
  rcases List.mem_append.mp hx with hx | hx
  · exact hm x hx
  · exact List.mem_singleton.mp hx ▸ he

end All

end Model

end EntitySchema
