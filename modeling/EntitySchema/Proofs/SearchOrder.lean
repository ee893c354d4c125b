import EntitySchema.Proofs.Reach

/-! The order in which names are found. Each is found along links from names that were found
before it. A breadth-first search finds no name before one that fewer links lead to. A
depth-first search follows the links of each name in their order: where the ways to two names
part, the one that it finds first is behind the earlier link. -/

namespace EntitySchema.Closure

open Relation (ReflTransGen)

variable {nodes : List String} {links : String → List String} {strategy : Strategy}
  {seen waiting before after : List String} {R S : String → String → Prop} {n k : Nat}
  {a b name x y : String}

/-- What leads to a name was found before it. -/
theorem path_of_found (h : reach nodes links strategy seen waiting = before ++ x :: after) :
    ∃ w ∈ waiting, ReflTransGen (fun c d => c ∈ before ∧ d ∈ links c) w x := by
  fun_induction reach nodes links strategy seen waiting generalizing before with
  | case1 => cases before <;> cases h
  | case2 seen name waiting hseen ih =>
    obtain ⟨w, hw, hpath⟩ := ih h
    exact ⟨w, List.mem_cons_of_mem _ hw, hpath⟩
  | case3 seen name waiting hseen hnode ih =>
    cases before with
    | nil =>
      cases h
      exact ⟨x, List.mem_cons_self, .refl⟩
    | cons first before =>
      obtain ⟨rfl, hrest⟩ := List.cons.inj h
      obtain ⟨w, hw, hpath⟩ := ih hrest
      have hpath := path_mono hpath fun c d hcd =>
        And.intro (List.mem_cons_of_mem name hcd.1) hcd.2
      rcases mem_enqueue.mp hw with hw | hw
      · exact ⟨name, List.mem_cons_self, .head ⟨List.mem_cons_self, hw⟩ hpath⟩
      · exact ⟨w, List.mem_cons_of_mem _ hw, hpath⟩
  | case4 seen name waiting hseen hnode ih =>
    obtain ⟨w, hw, hpath⟩ := ih h
    exact ⟨w, List.mem_cons_of_mem _ hw, hpath⟩

/-! ### Paths of bounded length -/

/-- At most so many steps lead from the first name to the second. -/
inductive Within (R : String → String → Prop) : Nat → String → String → Prop
  | refl {n : Nat} {a : String} : Within R n a a
  | step {n : Nat} {a b c : String} : R a b → Within R n b c → Within R (n + 1) a c

theorem Within.mono (h : Within R n a b) (hRS : ∀ c d, R c d → S c d) : Within S n a b := by
  induction h with
  | refl => exact .refl
  | step hab _ ih => exact .step (hRS _ _ hab) ih

theorem Within.le (h : Within R n a b) (hle : n ≤ k) : Within R k a b := by
  induction h generalizing k with
  | refl => exact .refl
  | step hab _ ih =>
    obtain ⟨k, rfl⟩ := Nat.exists_eq_add_of_le' (Nat.le_of_add_left_le hle)
    exact .step hab (ih (Nat.le_of_succ_le_succ hle))

theorem Within.of_one (h : Within R 1 a b) : a = b ∨ R a b := by
  cases h with
  | refl => exact .inl rfl
  | step hab hrest =>
    cases hrest
    exact .inr hab

/-- A path that ends elsewhere avoids a name, or a shorter one does that starts behind it. -/
theorem Within.avoid (h : Within R n a x) (hx : x ≠ name) :
    (a ≠ name ∧ Within (fun c d => R c d ∧ c ≠ name) n a x) ∨
      ∃ b k, R name b ∧ k < n ∧ Within (fun c d => R c d ∧ c ≠ name) k b x := by
  induction h with
  | refl => exact .inl ⟨hx, .refl⟩
  | @step n a b c hab hbc ih =>
    rcases ih hx with ⟨_, hpath⟩ | ⟨d, k, hd, hk, hpath⟩
    · by_cases ha : a = name
      · exact .inr ⟨b, n, ha ▸ hab, Nat.lt_succ_self n, hpath⟩
      · exact .inl ⟨ha, .step ⟨hab, ha⟩ hpath⟩
    · exact .inr ⟨d, k, hd, Nat.lt_succ_of_lt hk, hpath⟩

/-- The path to one name does not pass another that is farther away. -/
theorem Within.avoiding (h : Within R n a b) (hfar : ¬Within R n a x) :
    ReflTransGen (fun c d => R c d ∧ c ≠ x) a b := by
  induction h with
  | refl => exact .refl
  | step hab _ ih =>
    have hne : _ ≠ x := fun heq => hfar (heq ▸ .refl)
    exact .head ⟨hab, hne⟩ (ih fun hx => hfar (.step hab hx))

/-! ### Breadth first -/

/-- The names that wait, with the numbers of links that lead to them: no number is smaller
than those before it, or larger by more than one. -/
def Levelled (queue : List (String × Nat)) : Prop :=
  queue.Pairwise fun p q => p.2 ≤ q.2 ∧ q.2 ≤ p.2 + 1

/-- At most so many links lead to the name through the queue. -/
def Near (nodes : List String) (links : String → List String) (seen : List String)
    (queue : List (String × Nat)) (n : Nat) (x : String) : Prop :=
  ∃ p ∈ queue, ∃ k, p.2 + k ≤ n ∧ Within (Follows nodes links seen) k p.1 x

variable {queue rest : List (String × Nat)} {level : Nat}

theorem names_at_level (names : List String) (level : Nat) :
    (names.map (·, level)).map (·.1) = names := by
  rw [List.map_map]
  exact List.map_id _

theorem Levelled.follow (h : Levelled ((name, level) :: rest)) (found : List String) :
    Levelled (rest ++ found.map (·, level + 1)) := by
  obtain ⟨hfirst, hrest⟩ := List.pairwise_cons.mp h
  refine List.pairwise_append.mpr ⟨hrest, ?_, fun p hp q hq => ?_⟩
  · rw [List.pairwise_map]
    exact List.pairwise_of_forall fun _ _ => ⟨Nat.le_refl _, Nat.le_succ _⟩
  · obtain ⟨x, -, rfl⟩ := List.mem_map.mp hq
    have := hfirst p hp
    exact ⟨this.2, Nat.succ_le_succ this.1⟩

/-- What is near and not the name in front is near through the others, or behind that name,
which is then not passed again. -/
theorem Near.pass (hqueue : Levelled ((name, level) :: rest)) (hx : x ≠ name)
    (h : Near nodes links seen ((name, level) :: rest) n x) :
    Near nodes links (name :: seen) rest n x ∨
      name ∈ nodes ∧ name ∉ seen ∧
        Near nodes links (name :: seen) ((links name).map (·, level + 1)) n x := by
  obtain ⟨p, hp, k, hk, hpath⟩ := h
  have hfollows : ∀ c d, Follows nodes links seen c d ∧ c ≠ name →
      Follows nodes links (name :: seen) c d := fun _ _ h => follows_cons h.1 h.2
  rcases hpath.avoid hx with ⟨hne, hpath⟩ | ⟨b, j, hb, hj, hpath⟩
  · refine .inl ⟨p, (List.mem_cons.mp hp).resolve_left fun heq => ?_, k, hk, hpath.mono hfollows⟩
    exact hne (congrArg Prod.fst heq)
  · have hlevel : level ≤ p.2 := by
      rcases List.mem_cons.mp hp with rfl | hp
      · exact Nat.le_refl _
      · exact ((List.pairwise_cons.mp hqueue).1 p hp).1
    refine .inr ⟨hb.1, hb.2.1, (b, level + 1), List.mem_map_of_mem hb.2.2, j, ?_,
      hpath.mono hfollows⟩
    dsimp only
    omega

theorem Near.append_left (h : Near nodes links seen rest n x) (found : List (String × Nat)) :
    Near nodes links seen (rest ++ found) n x := by
  obtain ⟨p, hp, hnear⟩ := h
  exact ⟨p, List.mem_append_left _ hp, hnear⟩

theorem Near.append_right {found : List (String × Nat)} (h : Near nodes links seen found n x)
    (rest : List (String × Nat)) : Near nodes links seen (rest ++ found) n x := by
  obtain ⟨p, hp, hnear⟩ := h
  exact ⟨p, List.mem_append_right _ hp, hnear⟩

theorem Near.back (h : Near nodes links (name :: seen) rest n x) :
    Near nodes links seen ((name, level) :: rest) n x := by
  obtain ⟨p, hp, k, hk, hpath⟩ := h
  exact ⟨p, List.mem_cons_of_mem _ hp, k, hk, hpath.mono fun _ _ => follows_of_cons⟩

/-- What is near behind the name in front is near through that name. -/
theorem Near.unfollow (hnode : name ∈ nodes) (hseen : name ∉ seen)
    (h : Near nodes links (name :: seen) (rest ++ (links name).map (·, level + 1)) n x) :
    Near nodes links seen ((name, level) :: rest) n x := by
  obtain ⟨p, hp, k, hk, hpath⟩ := h
  rcases List.mem_append.mp hp with hp | hp
  · exact Near.back ⟨p, hp, k, hk, hpath⟩
  · obtain ⟨b, hb, rfl⟩ := List.mem_map.mp hp
    refine ⟨(name, level), List.mem_cons_self, k + 1, ?_,
      .step ⟨hnode, hseen, hb⟩ (hpath.mono fun _ _ => follows_of_cons)⟩
    dsimp only at hk ⊢
    omega

/-- Numbers of links for the names that wait tell which names are found earlier: those with
smaller ones. -/
theorem near_of_found (hqueue : Levelled queue) (hwaiting : queue.map (·.1) = waiting)
    (h : reach nodes links .breadthFirst seen waiting = before ++ x :: after) (hy : y ∈ after)
    (hnear : Near nodes links seen queue n y) : Near nodes links seen queue n x := by
  have hfound : ∀ {seen waiting before}, reach nodes links .breadthFirst seen waiting =
      before ++ x :: after → y ∉ seen := by
    intro seen waiting before h
    exact (path_of_mem_reach (x := y) (by rw [h]; simp [hy])).2.1
  fun_induction reach nodes links .breadthFirst seen waiting generalizing queue before with
  | case1 => cases before <;> cases h
  | case2 seen name waiting hseen ih =>
    obtain ⟨⟨name, level⟩, rest, rfl, rfl, rfl⟩ := List.map_eq_cons_iff.mp hwaiting
    have hname : name ∈ seen := by simpa using hseen
    have hne : y ≠ name := fun heq => hfound h (heq ▸ hname)
    rcases hnear.pass hqueue hne with hrest | ⟨-, hnew, -⟩
    · obtain ⟨p, hp, k, hk, hpath⟩ := hrest
      obtain ⟨p, hp, k, hk, hpath⟩ := ih (List.pairwise_cons.mp hqueue).2 rfl h
        ⟨p, hp, k, hk, hpath.mono fun _ _ => follows_of_cons⟩
      exact ⟨p, List.mem_cons_of_mem _ hp, k, hk, hpath⟩
    · exact absurd hname hnew
  | case3 seen name waiting hseen hnode ih =>
    obtain ⟨⟨name, level⟩, rest, rfl, rfl, rfl⟩ := List.map_eq_cons_iff.mp hwaiting
    have hname : name ∈ nodes ∧ name ∉ seen := by simpa using And.intro hnode hseen
    cases before with
    | nil =>
      -- the name in front has the smallest number
      obtain ⟨rfl, -⟩ := List.cons.inj h
      obtain ⟨p, hp, k, hk, -⟩ := hnear
      refine ⟨(_, level), List.mem_cons_self, 0, ?_, .refl⟩
      rcases List.mem_cons.mp hp with rfl | hp
      · dsimp only at hk ⊢
        omega
      · have hlevel := ((List.pairwise_cons.mp hqueue).1 p hp).1
        dsimp only at hlevel ⊢
        omega
    | cons first before =>
      obtain ⟨rfl, hrest⟩ := List.cons.inj h
      have hne : y ≠ name := fun heq => hfound hrest (heq ▸ List.mem_cons_self)
      refine Near.unfollow hname.1 hname.2 (ih (hqueue.follow (links name)) ?_ hrest ?_)
      · rw [List.map_append, names_at_level]
        rfl
      · rcases hnear.pass hqueue hne with hnear | ⟨-, -, hnear⟩
        · exact hnear.append_left _
        · exact hnear.append_right _
  | case4 seen name waiting hseen hnode ih =>
    obtain ⟨⟨name, level⟩, rest, rfl, rfl, rfl⟩ := List.map_eq_cons_iff.mp hwaiting
    have hname : name ∉ nodes := by simpa using hnode
    have hne : y ≠ name := fun heq => hfound h (heq ▸ List.mem_cons_self)
    rcases hnear.pass hqueue hne with hrest | ⟨hmem, -⟩
    · exact (ih (List.pairwise_cons.mp hqueue).2 rfl h hrest).back
    · exact absurd hmem hname

/-- Breadth first, a name is found before those that more links lead to. -/
theorem within_of_found (h : reach nodes links .breadthFirst seen waiting = before ++ x :: after)
    (hy : y ∈ after) (hnear : ∃ w ∈ waiting, Within (Follows nodes links seen) n w y) :
    ∃ w ∈ waiting, Within (Follows nodes links seen) n w x := by
  obtain ⟨w, hw, hpath⟩ := hnear
  have hlevelled : Levelled (waiting.map (·, 0)) := by
    unfold Levelled
    rw [List.pairwise_map]
    exact List.pairwise_of_forall fun _ _ => ⟨Nat.le_refl _, Nat.le_succ _⟩
  obtain ⟨p, hp, k, hk, hpath⟩ := near_of_found hlevelled (names_at_level waiting 0) h hy
    ⟨(w, 0), List.mem_map_of_mem hw, n, Nat.le_of_eq (Nat.zero_add n), hpath⟩
  obtain ⟨v, hv, rfl⟩ := List.mem_map.mp hp
  rw [Nat.zero_add] at hk
  exact ⟨v, hv, hpath.le hk⟩

/-! ### Depth first -/

/-- Two of the names, of which the earlier one leads to `x` and the later one to `y`. -/
def Divides (R : String → String → Prop) (names : List String) (x y : String) : Prop :=
  ∃ p q, [p, q].Sublist names ∧ p ≠ q ∧ ReflTransGen R p x ∧ ReflTransGen R q y

/-- The ways to two names part at names that were waiting, and of which the later one was not
seen, or at links of one name that is reached from there. -/
def Parts (links : String → List String) (seen waiting : List String) (x y : String) : Prop :=
  (∃ p q, [p, q].Sublist waiting ∧ p ≠ q ∧ q ∉ seen ∧
      ReflTransGen (fun c d => d ∈ links c) p x ∧ ReflTransGen (fun c d => d ∈ links c) q y) ∨
    ∃ w ∈ waiting, ∃ z, ReflTransGen (fun c d => d ∈ links c) w z ∧
      Divides (fun c d => d ∈ links c) (links z) x y

/-- What waits behind a name that is passed parts as before. -/
theorem Parts.cons (h : Parts links seen waiting x y) : Parts links seen (name :: waiting) x y := by
  rcases h with ⟨p, q, hpq, hparts⟩ | ⟨w, hw, hparts⟩
  · exact .inl ⟨p, q, hpq.cons name, hparts⟩
  · exact .inr ⟨w, List.mem_cons_of_mem _ hw, hparts⟩

theorem Parts.forget (h : Parts links (name :: seen) waiting x y) :
    Parts links seen waiting x y := by
  rcases h with ⟨p, q, hpq, hne, hq, hparts⟩ | hparts
  · exact .inl ⟨p, q, hpq, hne, fun hmem => hq (List.mem_cons_of_mem _ hmem), hparts⟩
  · exact .inr hparts

/-- Where ways part among the links of the first name and what waits behind it, they part at
that name already, or behind it. -/
theorem Parts.unfollow (h : Parts links (name :: seen) (links name ++ waiting) x y) :
    Parts links seen (name :: waiting) x y := by
  rcases h with ⟨p, q, hpq, hne, hq, hx, hy⟩ | ⟨w, hw, z, hz, hparts⟩
  · obtain ⟨hname, hseen⟩ : q ≠ name ∧ q ∉ seen := by simpa using hq
    obtain ⟨first, second, hsplit, hfirst, hsecond⟩ := List.sublist_append_iff.mp hpq
    rcases first with _ | ⟨p', _ | ⟨q', rest⟩⟩
    · obtain rfl : [p, q] = second := hsplit
      exact .inl ⟨p, q, hsecond.cons name, hne, hseen, hx, hy⟩
    · obtain ⟨rfl, rfl⟩ : p = p' ∧ [q] = second := by simpa using hsplit
      have hlink : p ∈ links name := hfirst.subset List.mem_cons_self
      exact .inl ⟨name, q, hsecond.cons_cons name, hname.symm, hseen, .head hlink hx, hy⟩
    · obtain ⟨rfl, rfl, rfl, rfl⟩ : p = p' ∧ q = q' ∧ rest = [] ∧ second = [] := by
        simpa [and_assoc] using hsplit
      exact .inr ⟨name, List.mem_cons_self, name, .refl, p, q, hfirst, hne, hx, hy⟩
  · rcases List.mem_append.mp hw with hw | hw
    · exact .inr ⟨name, List.mem_cons_self, z, .head hw hz, hparts⟩
    · exact .inr ⟨w, List.mem_cons_of_mem _ hw, z, hz, hparts⟩

/-- Depth first, of two names the one behind an earlier link is found first. -/
theorem parts_of_found (h : reach nodes links .depthFirst seen waiting = before ++ x :: after)
    (hy : y ∈ after)
    (hpath : ∃ w ∈ waiting, ReflTransGen (fun c d => Follows nodes links seen c d ∧ c ≠ x) w y) :
    Parts links seen waiting x y := by
  have hfound : ∀ {seen waiting before}, reach nodes links .depthFirst seen waiting =
      before ++ x :: after → y ∈ nodes ∧ y ∉ seen ∧ y ≠ x := by
    intro seen waiting before h
    obtain ⟨hnode, hseen, -⟩ := path_of_mem_reach (x := y) (by rw [h]; simp [hy])
    have hnodup : (before ++ x :: after).Nodup := h ▸ reach_nodup
    have hx := (List.nodup_cons.mp (List.nodup_append.mp hnodup).2.1).1
    exact ⟨hnode, hseen, fun heq => hx (heq ▸ hy)⟩
  fun_induction reach nodes links .depthFirst seen waiting generalizing before with
  | case1 => cases before <;> cases h
  | case2 seen name waiting hseen ih =>
    have hname : name ∈ seen := by simpa using hseen
    obtain ⟨w, hw, hpath⟩ := hpath
    have hne : w ≠ name := by
      rintro rfl
      have hy := path_from_seen (path_mono hpath fun _ _ h => h.1) hname
      exact (hfound h).2.1 (hy ▸ hname)
    exact (ih h ⟨w, (List.mem_cons.mp hw).resolve_left hne, hpath⟩).cons
  | case3 seen name waiting hseen hnode ih =>
    obtain ⟨w, hw, hpath⟩ := hpath
    cases before with
    | nil =>
      -- what waits behind the name that is found was not passed
      obtain ⟨rfl, hrest⟩ := List.cons.inj h
      rw [← hrest] at hy
      obtain ⟨hne, hnew⟩ := List.ne_and_not_mem_of_not_mem_cons (path_of_mem_reach hy).2.1
      have hwne : w ≠ name := by
        rintro rfl
        rcases ReflTransGen.cases_head hpath with heq | ⟨c, hstep, -⟩
        · exact hne heq.symm
        · exact hstep.2 rfl
      have hwseen : w ∉ seen := fun hmem => by
        have heq := path_from_seen (path_mono hpath fun _ _ h => h.1) hmem
        exact hnew (heq ▸ hmem)
      have hw := (List.mem_cons.mp hw).resolve_left hwne
      exact .inl ⟨name, w, (List.singleton_sublist.mpr hw).cons_cons name, hwne.symm, hwseen, .refl,
        path_mono hpath fun _ _ h => h.1.2.2⟩
    | cons first before =>
      obtain ⟨rfl, hrest⟩ := List.cons.inj h
      have hne : y ≠ name := fun heq => (hfound hrest).2.1 (heq ▸ List.mem_cons_self)
      have hfollows : ∀ c d, (Follows nodes links seen c d ∧ c ≠ x) ∧ c ≠ name →
          Follows nodes links (name :: seen) c d ∧ c ≠ x := fun _ _ h =>
        ⟨follows_cons h.1.1 h.2, h.1.2⟩
      refine Parts.unfollow (ih hrest ?_)
      rcases avoid hpath hne with ⟨hwne, hpath⟩ | ⟨b, hb, hpath⟩
      · have hw := (List.mem_cons.mp hw).resolve_left hwne
        exact ⟨w, List.mem_append_right _ hw, path_mono hpath hfollows⟩
      · exact ⟨b, List.mem_append_left _ hb.1.2.2, path_mono hpath hfollows⟩
  | case4 seen name waiting hseen hnode ih =>
    have hname : name ∉ nodes := by simpa using hnode
    have hne : y ≠ name := fun heq => hname (heq ▸ (hfound h).1)
    obtain ⟨w, hw, hpath⟩ := hpath
    rcases avoid hpath hne with ⟨hwne, hpath⟩ | ⟨b, hb, -⟩
    · refine (ih h ⟨w, (List.mem_cons.mp hw).resolve_left hwne, ?_⟩).forget.cons
      exact path_mono hpath fun _ _ h => ⟨follows_cons h.1.1 h.2, h.1.2⟩
    · exact absurd hb.1.1 hname

end EntitySchema.Closure
