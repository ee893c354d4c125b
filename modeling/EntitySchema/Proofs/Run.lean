import EntitySchema.Pass
import EntitySchema.Draft
import Mathlib.Data.List.Forall2

/-! Runs that succeed. `Ends p s a s'` says that the work `p`, begun in the state `s`,
ends in `s'` with the result `a`; for a pass the state is the model. A run of
composed work is taken apart into runs of its parts, and what every round of a
loop does to the state holds of the loop. -/

namespace EntitySchema

theorem Except.bind_ok {ε α β : Type} {x : Except ε α} {f : α → Except ε β} {b : β}
    (h : (x >>= f) = .ok b) : ∃ a, x = .ok a ∧ f a = .ok b := by
  cases x with
  | error e => cases h
  | ok a => exact ⟨a, rfl, h⟩

theorem Except.exists_ok {ε α : Type} {x : Except ε α} (h : x.toBool = true) :
    ∃ a, x = .ok a := by
  cases x with
  | error e => cases h
  | ok a => exact ⟨a, rfl⟩

theorem Except.exists_ok_and {ε α : Type} {x : Except ε α} {p : α → Bool}
    (h : x.toOption.any p = true) : ∃ a, x = .ok a ∧ p a = true := by
  cases x with
  | error e => cases h
  | ok a => exact ⟨a, rfl, h⟩

/-- What follows a check that failed is not reached. -/
theorem Except.guard_ok {ε α β : Type} {c : Prop} [Decidable c] {e : ε} {k : α → Except ε β}
    {x : Except ε β} {b : β} (h : (if c then throw e >>= k else x) = .ok b) :
    ¬c ∧ x = .ok b := by
  split at h
  · cases h
  · next hc => exact ⟨hc, h⟩

theorem Except.mapError_ok {ε ε' α : Type} {x : Except ε α} {g : ε → ε'} {a : α}
    (h : x.mapError g = .ok a) : x = .ok a := by
  cases x with
  | error e => cases h
  | ok b => cases h; rfl

theorem Except.forM_ok {ε α : Type} {f : α → Except ε Unit} {u : Unit} :
    ∀ {xs : List α}, xs.forM f = .ok u → ∀ x ∈ xs, f x = .ok ()
  | y :: ys, h, x, hx => by
    obtain ⟨_, hy, hys⟩ := Except.bind_ok h
    rcases List.mem_cons.mp hx with rfl | hx
    · exact hy
    · exact forM_ok hys x hx

theorem Except.forM_ok_iff {ε α : Type} {f : α → Except ε Unit} {xs : List α} :
    xs.forM f = .ok () ↔ ∀ x ∈ xs, f x = .ok () := by
  refine ⟨forM_ok, fun h => ?_⟩
  induction xs with
  | nil => rfl
  | cons y ys ih =>
    obtain ⟨hy, hys⟩ := List.forall_mem_cons.mp h
    show (f y >>= fun _ => ys.forM f) = .ok ()
    rw [hy]
    exact ih hys

/-- A fold that succeeds keeps what each of its steps keeps. -/
theorem Except.foldlM_ok {ε α β : Type} {f : β → α → Except ε β} (P : β → Prop) :
    ∀ {xs : List α} {b b' : β}, (∀ x ∈ xs, ∀ b b', f b x = .ok b' → P b → P b') →
      xs.foldlM f b = .ok b' → P b → P b'
  | [], b, b', _, h, hb => by cases h; exact hb
  | x :: xs, b, b', hstep, h, hb => by
    obtain ⟨c, hc, hrest⟩ := Except.bind_ok h
    exact foldlM_ok P (fun y hy => hstep y (List.mem_cons_of_mem _ hy)) hrest
      (hstep x List.mem_cons_self b c hc hb)

/-- The items of a list and their images under a map that succeeds. -/
theorem Except.mapM_ok {ε α β : Type} {f : α → Except ε β} :
    ∀ {xs : List α} {ys : List β}, xs.mapM f = .ok ys →
      List.Forall₂ (fun x y => f x = .ok y) xs ys
  | [], ys, h => by cases h; exact .nil
  | x :: xs, ys, h => by
    rw [List.mapM_cons] at h
    obtain ⟨y, hy, h⟩ := Except.bind_ok h
    obtain ⟨rest, hrest, h⟩ := Except.bind_ok h
    cases h
    exact .cons hy (mapM_ok hrest)

section Runs

variable {σ α β : Type} {s s' s'' : σ}

/-- The work takes the state `s` to `s'` with the result `a`. -/
def Ends (p : ExceptT Failure (StateM σ) α) (s : σ) (a : α) (s' : σ) : Prop := p.run s = (.ok a, s')

/-- The second part runs on what the first leaves behind, unless that fails. -/
theorem run_bind (p : ExceptT Failure (StateM σ) α) (k : α → ExceptT Failure (StateM σ) β) (s : σ) :
    (p >>= k).run s = match p.run s with
      | (.ok a, s') => (k a).run s'
      | (.error e, s') => (.error e, s') := by
  change StateT.bind p (ExceptT.bindCont k) s = match p s with
    | (.ok a, s') => (k a).run s'
    | (.error e, s') => (.error e, s')
  unfold StateT.bind
  rcases p s with ⟨_ | _, _⟩ <;> rfl

/-- What follows a lifted outcome is reached if that is no failure. -/
theorem run_lift_bind (x : Except Failure α) (k : α → ExceptT Failure (StateM σ) β) (s : σ) :
    (liftM x >>= k).run s = match x with
      | .error e => (.error e, s)
      | .ok a => (k a).run s := by
  cases x <;> rfl

namespace Ends

variable {p : ExceptT Failure (StateM σ) α} {k : α → ExceptT Failure (StateM σ) β} {a : α} {b : β}

theorem bind (h : Ends (p >>= k) s b s'') : ∃ a s', Ends p s a s' ∧ Ends (k a) s' b s'' := by
  unfold Ends at h
  rw [run_bind] at h
  match hp : p.run s with
  | (.ok a, s') => rw [hp] at h; exact ⟨a, s', hp, h⟩
  | (.error e, s') => rw [hp] at h; cases h

theorem pure {c : α} (h : Ends (pure c) s a s') : a = c ∧ s' = s := by
  cases h; exact ⟨rfl, rfl⟩

theorem get_bind {k : σ → ExceptT Failure (StateM σ) β} (h : Ends (get >>= k) s b s') :
    Ends (k s) s b s' := h

theorem get_bind_of {k : σ → ExceptT Failure (StateM σ) β} (h : Ends (k s) s b s') :
    Ends (get >>= k) s b s' := h

theorem set {t : σ} {u : PUnit} (h : Ends (set t) s u s') : s' = t := by
  cases h; rfl

theorem set_bind {t : σ} {k : PUnit → ExceptT Failure (StateM σ) β}
    (h : Ends (MonadStateOf.set t >>= k) s b s') : Ends (k ⟨⟩) t b s' := h

theorem modify {f : σ → σ} {u : PUnit} (h : Ends (modify f) s u s') : s' = f s := by
  cases h; rfl

theorem lift {x : Except Failure α} (h : Ends (liftM x) s a s') : x = .ok a ∧ s' = s := by
  cases x with
  | error e => cases h
  | ok c => cases h; exact ⟨rfl, rfl⟩

theorem lift_bind {x : Except Failure α} (h : Ends (liftM x >>= k) s b s') :
    ∃ a, x = .ok a ∧ Ends (k a) s b s' := by
  cases x with
  | error e => cases h
  | ok a => exact ⟨a, rfl, h⟩

theorem bind_of (hp : Ends p s a s') (hk : Ends (k a) s' b s'') : Ends (p >>= k) s b s'' := by
  unfold Ends
  rw [run_bind, hp]
  exact hk

theorem map {f : α → β} (h : Ends p s a s') : Ends (f <$> p) s (f a) s' := by
  rw [map_eq_pure_bind]
  exact h.bind_of rfl

/-- A failure ends no work. -/
theorem throw {e : Failure} (h : Ends (throw e) s a s') : False := by
  cases h

/-- Work that a check stands before is done when the check passes. -/
theorem guard {c : Prop} [Decidable c] {e : Failure} {k : α → ExceptT Failure (StateM σ) β}
    {q : ExceptT Failure (StateM σ) β}
    (h : Ends (if c then MonadExcept.throw e >>= k else q) s b s') : ¬c ∧ Ends q s b s' := by
  split at h
  · cases h
  · next hc => exact ⟨hc, h⟩

end Ends

/-! ### Loops -/

section Loops

variable {ι γ : Type}

/-- What every round keeps of the state, the loop keeps. -/
theorem Ends.forM_keeps {k : ι → ExceptT Failure (StateM σ) Unit} {u : Unit} (P : σ → Prop) :
    ∀ {xs : List ι} {s s' : σ}, Ends (xs.forM k) s u s' →
      (∀ x ∈ xs, ∀ s s', Ends (k x) s () s' → P s → P s') → P s → P s'
  | [], s, s', h, _, hs => by cases h; exact hs
  | x :: xs, s, s', h, hstep, hs => by
    obtain ⟨_, s₁, hx, h⟩ := h.bind
    exact forM_keeps P h (fun y hy => hstep y (List.mem_cons_of_mem _ hy))
      (hstep x List.mem_cons_self _ _ hx hs)

/-- A loop is the rounds before one, that round and the rounds after it. -/
theorem Ends.forM_split {k : ι → ExceptT Failure (StateM σ) Unit} {u : Unit} {x : ι} :
    ∀ {before after : List ι} {s s' : σ}, Ends ((before ++ x :: after).forM k) s u s' →
      ∃ s₁ s₂, Ends (before.forM k) s () s₁ ∧ Ends (k x) s₁ () s₂ ∧ Ends (after.forM k) s₂ () s'
  | [], after, s, s', h => by
    obtain ⟨_, s₂, hx, h⟩ := h.bind
    exact ⟨s, s₂, rfl, hx, h⟩
  | y :: before, after, s, s', h => by
    obtain ⟨_, s₀, hy, h⟩ := h.bind
    obtain ⟨s₁, s₂, hbefore, hx, hafter⟩ := forM_split h
    exact ⟨s₁, s₂, hy.bind_of hbefore, hx, hafter⟩

/-- A loop whose rounds all leave the state as it is does so too. -/
theorem Ends.forM_same {k : ι → ExceptT Failure (StateM σ) Unit} {s : σ} :
    ∀ {xs : List ι}, (∀ x ∈ xs, Ends (k x) s () s) → Ends (xs.forM k) s () s
  | [], _ => rfl
  | x :: _, h => (h x List.mem_cons_self).bind_of
      (forM_same fun y hy => h y (List.mem_cons_of_mem _ hy))

/-- The same for a loop that carries a result from round to round. -/
theorem Ends.foldlM_keeps {f : γ → ι → ExceptT Failure (StateM σ) γ} (P : γ → σ → Prop) :
    ∀ {xs : List ι} {c c' : γ} {s s' : σ}, Ends (xs.foldlM f c) s c' s' →
      (∀ x ∈ xs, ∀ c c' s s', Ends (f c x) s c' s' → P c s → P c' s') → P c s → P c' s'
  | [], c, c', s, s', h, _, hc => by cases h; exact hc
  | x :: xs, c, c', s, s', h, hstep, hc => by
    rw [List.foldlM_cons] at h
    obtain ⟨c₁, s₁, hx, h⟩ := h.bind
    exact foldlM_keeps P h (fun y hy => hstep y (List.mem_cons_of_mem _ hy))
      (hstep x List.mem_cons_self _ _ _ _ hx hc)

/-- What every round does to the state as it gathers results, the loop does to it with
all of them. -/
theorem Ends.mapM_rel {f : ι → ExceptT Failure (StateM σ) (List γ)} (R : List γ → σ → σ → Prop)
    (hrefl : ∀ s, R [] s s)
    (htrans : ∀ {cs ds s₁ s₂ s₃}, R cs s₁ s₂ → R ds s₂ s₃ → R (cs ++ ds) s₁ s₃) :
    ∀ {xs : List ι} {css : List (List γ)} {s s' : σ},
      (∀ x ∈ xs, ∀ cs s s', Ends (f x) s cs s' → R cs s s') → Ends (xs.mapM f) s css s' →
      R css.flatten s s'
  | [], css, s, s', _, h => by cases h; exact hrefl _
  | x :: xs, css, s, s', hstep, h => by
    rw [List.mapM_cons] at h
    obtain ⟨_, s₁, hx, h⟩ := h.bind
    obtain ⟨_, s₂, hxs, h⟩ := h.bind
    obtain ⟨rfl, rfl⟩ := h.pure
    exact htrans (hstep x List.mem_cons_self _ _ _ hx)
      (mapM_rel R hrefl htrans (fun y hy => hstep y (List.mem_cons_of_mem _ hy)) hxs)

end Loops

end Runs

/-! ### The steps of passes and of reading -/

variable {α : Type} {a : α} {u : Unit}

theorem Pass.check_ends {f : Model → Except Failure α} {m m' : Model}
    (h : Ends (Pass.check f) m a m') : f m = .ok a ∧ m' = m := Ends.lift (x := f m) h

theorem Pass.change_ends {f : Model → Model} {m m' : Model} (h : Ends (Pass.change f) m u m') :
    m' = f m := by
  cases h; rfl

theorem Pass.step_ends {f : Model → Except Failure Model} {m m' : Model}
    (h : Ends (Pass.step f) m u m') : f m = .ok m' := by
  obtain ⟨n, hf, hset⟩ := Ends.lift_bind (Ends.get_bind h)
  rw [hf, hset.set]

theorem Pass.check_of {f : Model → Except Failure α} {m : Model} (h : f m = .ok a) :
    Ends (Pass.check f) m a m := by
  change Ends (liftM (f m)) m a m
  rw [h]
  rfl

theorem Pass.change_of {f : Model → Model} {m m' : Model} (h : f m = m') :
    Ends (Pass.change f) m u m' := by
  subst h
  rfl

theorem Pass.step_of {f : Model → Except Failure Model} {m m' : Model} (h : f m = .ok m') :
    Ends (Pass.step f) m u m' := by
  change Ends (liftM (f m) >>= fun changed => set changed) m u m'
  rw [h]
  rfl

theorem Pass.check_bind {β : Type} {f : Model → Except Failure α} {k : α → Pass β} {b : β}
    {m m' : Model} (h : Ends (Pass.check f >>= k) m b m') :
    ∃ a, f m = .ok a ∧ Ends (k a) m b m' := by
  obtain ⟨a, m₁, hcheck, h⟩ := h.bind
  obtain ⟨hcheck, rfl⟩ := Pass.check_ends hcheck
  exact ⟨a, hcheck, ‹Ends (k a) _ b m'›⟩

theorem Pass.step_bind {β : Type} {f : Model → Except Failure Model} {k : Unit → Pass β} {b : β}
    {m m' : Model} (h : Ends (Pass.step f >>= k) m b m') :
    ∃ m₁, f m = .ok m₁ ∧ Ends (k ()) m₁ b m' := by
  obtain ⟨_, m₁, hstep, h⟩ := h.bind
  exact ⟨m₁, Pass.step_ends hstep, h⟩

theorem Pass.change_bind {β : Type} {f : Model → Model} {k : Unit → Pass β} {b : β}
    {m m' : Model} (h : Ends (Pass.change f >>= k) m b m') : Ends (k ()) (f m) b m' := h

/-- Work that only looks at the model leaves it as it is. -/
theorem Reading.noting_ends {work : Model → Noting α} {d d' : Draft}
    (h : Ends (Reading.noting work) d a d') :
    d'.model = d.model ∧ Ends (work d.model) d.warnings a d'.warnings := by
  unfold Ends Reading.noting at h
  rcases hwork : (work d.model).run d.warnings with ⟨outcome, warnings⟩
  simp only [ExceptT.run_mk] at h
  rw [hwork] at h
  cases h
  exact ⟨rfl, hwork⟩

theorem Reading.change_ends {f : Model → Model} {d d' : Draft}
    (h : Ends (Reading.change f) d u d') : d'.model = f d.model := by
  cases h; rfl

theorem Reading.tryChange_ends {f : Model → Except Failure Model} {d d' : Draft}
    (h : Ends (Reading.tryChange f) d u d') : f d.model = .ok d'.model := by
  obtain ⟨n, hf, hmodify⟩ := Ends.lift_bind (Ends.get_bind h)
  rw [hf, hmodify.modify]

end EntitySchema
