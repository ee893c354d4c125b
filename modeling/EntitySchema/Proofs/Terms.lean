import EntitySchema.Proofs.Run

/-! Terms on which work is done. `Ends` tells of runs that succeed; terms hold for every
run: they say what work may make of its state, also when it fails half-way, and which
failures it may end with. Composed work heeds the terms that its parts heed. -/

namespace EntitySchema

/-! ### Failures -/

/-- If it fails, it fails as `P` says. -/
def FailsAs {ε α : Type} (P : ε → Prop) (x : Except ε α) : Prop :=
  ∀ e, x = .error e → P e

namespace FailsAs

variable {ε ε' α β ι : Type} {P : ε → Prop} {x : Except ε α}

theorem pure {a : α} : FailsAs P (pure a) := fun _ h => nomatch h

theorem throw {e : ε} (h : P e) : FailsAs P (throw e : Except ε α) := by
  intro _ he
  cases he
  exact h

theorem bind {k : α → Except ε β} (hx : FailsAs P x) (hk : ∀ a, x = .ok a → FailsAs P (k a)) :
    FailsAs P (x >>= k) := by
  cases x with
  | error e =>
    intro e' h
    cases h
    exact hx e rfl
  | ok a => exact hk a rfl

theorem mapError {g : ε' → ε} {y : Except ε' α} (h : FailsAs (fun e => P (g e)) y) :
    FailsAs P (y.mapError g) := by
  cases y with
  | error e => exact throw (h e rfl)
  | ok a => exact fun _ h => nomatch h

theorem guard {c : Prop} [Decidable c] {e : ε} {k : α → Except ε β} {y : Except ε β} (h : P e)
    (hy : FailsAs P y) : FailsAs P (if c then MonadExcept.throw e >>= k else y) := by
  split
  · exact throw h
  · exact hy

theorem mapM {f : ι → Except ε β} : ∀ {xs : List ι}, (∀ i ∈ xs, FailsAs P (f i)) →
    FailsAs P (xs.mapM f)
  | [], _ => pure
  | i :: rest, h => by
    rw [List.mapM_cons]
    exact (h i List.mem_cons_self).bind fun _ _ =>
      (mapM fun j hj => h j (List.mem_cons_of_mem _ hj)).bind fun _ _ => pure

theorem foldlM {f : β → ι → Except ε β} (h : ∀ b i, FailsAs P (f b i)) :
    ∀ (xs : List ι) (b : β), FailsAs P (xs.foldlM f b)
  | [], _ => pure
  | i :: rest, b => by
    rw [List.foldlM_cons]
    exact (h b i).bind fun b' _ => foldlM h rest b'

end FailsAs

/-! ### Terms -/

/-- What work may make of its state, in any number of steps, and how it may fail. -/
structure Terms (σ : Type) where
  changes : σ → σ → Prop
  failures : Failure → Prop
  refl : ∀ s, changes s s
  trans : ∀ {s₁ s₂ s₃}, changes s₁ s₂ → changes s₂ s₃ → changes s₁ s₃

/-- The terms of work that leaves what `g` sees of the state as it is. -/
def Terms.keeping {σ β : Type} (g : σ → β) (failures : Failure → Prop) : Terms σ where
  changes s s' := g s' = g s
  failures
  refl _ := rfl
  trans h h' := h'.trans h

/-- The work heeds the terms when it begins in the state `s`. -/
structure Heeds {σ α : Type} (t : Terms σ) (p : ExceptT Failure (StateM σ) α) (s : σ) : Prop where
  changes : t.changes s (p.run s).2
  failures : FailsAs t.failures (p.run s).1

namespace Heeds

variable {σ α β ι : Type} {t : Terms σ} {p : ExceptT Failure (StateM σ) α} {s s' : σ}
  {k : α → ExceptT Failure (StateM σ) β} {x : Except Failure α}

theorem of_ends (h : Heeds t p s) {a : α} (hp : Ends p s a s') : t.changes s s' := by
  have hchanges := h.changes
  rw [hp] at hchanges
  exact hchanges

theorem pure {a : α} : Heeds t (pure a) s := ⟨t.refl s, fun _ h => nomatch h⟩

theorem throw {e : Failure} (h : t.failures e) :
    Heeds t (throw e : ExceptT Failure (StateM σ) α) s := ⟨t.refl s, FailsAs.throw h⟩

theorem lift (h : FailsAs t.failures x) :
    Heeds t (liftM x : ExceptT Failure (StateM σ) α) s := by
  cases x with
  | error e => exact throw (h e rfl)
  | ok a => exact pure

/-- The second part heeds the terms wherever the first part ends. -/
theorem bind (hp : Heeds t p s) (hk : ∀ a s', Ends p s a s' → Heeds t (k a) s') :
    Heeds t (p >>= k) s := by
  rcases hrun : p.run s with ⟨e | a, s'⟩
  · obtain ⟨hchanges, hfailures⟩ := hp
    rw [hrun] at hchanges hfailures
    refine ⟨?_, ?_⟩
    · rw [run_bind, hrun]
      exact hchanges
    · rw [run_bind, hrun]
      intro e' he
      cases he
      exact hfailures e rfl
  · obtain ⟨hchanges, hfailures⟩ := hk a s' hrun
    refine ⟨?_, ?_⟩
    · rw [run_bind, hrun]
      exact t.trans (hp.of_ends hrun) hchanges
    · rw [run_bind, hrun]
      exact hfailures

theorem lift_bind (hx : FailsAs t.failures x) (hk : ∀ a, x = .ok a → Heeds t (k a) s) :
    Heeds t (liftM x >>= k) s := by
  refine (lift hx).bind fun a s' h => ?_
  obtain ⟨hok, rfl⟩ := h.lift
  exact hk a hok

theorem guard {c : Prop} [Decidable c] {e : Failure} {q : ExceptT Failure (StateM σ) β}
    (h : t.failures e) (hq : Heeds t q s) :
    Heeds t (if c then MonadExcept.throw e >>= k else q) s := by
  split
  · exact (throw h).bind fun _ _ h => h.throw.elim
  · exact hq

theorem get_bind {k : σ → ExceptT Failure (StateM σ) β} (h : Heeds t (k s) s) :
    Heeds t (get >>= k) s := ⟨h.changes, h.failures⟩

theorem modify {f : σ → σ} (h : t.changes s (f s)) :
    Heeds t (modify f : ExceptT Failure (StateM σ) PUnit) s := ⟨h, fun _ h => nomatch h⟩

theorem set (h : t.changes s s') :
    Heeds t (set s' : ExceptT Failure (StateM σ) PUnit) s := ⟨h, fun _ h => nomatch h⟩

/-! ### Loops -/

theorem forM {f : ι → ExceptT Failure (StateM σ) Unit} (h : ∀ i s, Heeds t (f i) s) :
    ∀ (xs : List ι) (s : σ), Heeds t (xs.forM f) s
  | [], _ => pure
  | i :: rest, s => (h i s).bind fun _ s' _ => forM h rest s'

theorem foldlM {f : β → ι → ExceptT Failure (StateM σ) β} (h : ∀ b i s, Heeds t (f b i) s) :
    ∀ (xs : List ι) (b : β) (s : σ), Heeds t (xs.foldlM f b) s
  | [], _, _ => pure
  | i :: rest, b, s => by
    rw [List.foldlM_cons]
    exact (h b i s).bind fun b' s' _ => foldlM h rest b' s'

theorem mapM {f : ι → ExceptT Failure (StateM σ) β} (h : ∀ i s, Heeds t (f i) s) :
    ∀ (xs : List ι) (s : σ), Heeds t (xs.mapM f) s
  | [], _ => pure
  | i :: rest, s => by
    rw [List.mapM_cons]
    exact (h i s).bind fun _ s' _ => (mapM h rest s').bind fun _ _ _ => pure

end Heeds

/-! ### The steps of passes and of reading -/

namespace Pass

variable {α : Type} {t : Terms Model} {m : Model}

theorem check_heeds {f : Model → Except Failure α} (h : FailsAs t.failures (f m)) :
    Heeds t (check f) m := .get_bind (.lift h)

theorem step_heeds {f : Model → Except Failure Model} (hfails : FailsAs t.failures (f m))
    (hchanges : ∀ m', f m = .ok m' → t.changes m m') : Heeds t (step f) m :=
  .get_bind (.lift_bind hfails fun m' hm' => .set (hchanges m' hm'))

theorem change_heeds {f : Model → Model} (h : t.changes m (f m)) : Heeds t (change f) m :=
  .modify h

end Pass

namespace Reading

variable {α : Type} {t : Terms Draft} {d : Draft}

theorem change_heeds {f : Model → Model} (h : t.changes d { d with model := f d.model }) :
    Heeds t (change f) d := .modify h

theorem tryChange_heeds {f : Model → Except Failure Model}
    (hfails : FailsAs t.failures (f d.model))
    (hchanges : ∀ m, f d.model = .ok m → t.changes d { d with model := m }) :
    Heeds t (tryChange f) d :=
  .get_bind (.lift_bind hfails fun m hm => .modify (hchanges m hm))

/-- Only the warnings change while the model is looked at. -/
theorem noting_heeds {work : Model → Noting α} {t' : Terms (List Warning)}
    (hwork : Heeds t' (work d.model) d.warnings) (hfails : ∀ e, t'.failures e → t.failures e)
    (hchanges : ∀ warnings, t.changes d { d with warnings }) : Heeds t (noting work) d :=
  ⟨hchanges _, fun e he => hfails e (hwork.failures e he)⟩

end Reading

end EntitySchema
