import EntitySchema.Closure
import Mathlib.Logic.Relation

/-! What `reach` finds: the nodes that a path of links leads to from a waiting name,
where no step starts at a name that was seen. Both strategies find the same
names, since both look at every link of every name that is found. -/

namespace EntitySchema.Closure

open Relation (ReflTransGen TransGen)

variable {nodes : List String} {links : String → List String} {strategy : Strategy}
  {seen waiting : List String} {a b name x : String}

/-- A link that is followed: it starts at a node that is not seen. -/
def Follows (nodes : List String) (links : String → List String) (seen : List String)
    (a b : String) : Prop := a ∈ nodes ∧ a ∉ seen ∧ b ∈ links a

theorem mem_enqueue {found : List String} :
    x ∈ strategy.enqueue found waiting ↔ x ∈ found ∨ x ∈ waiting := by
  cases strategy <;> simp [Strategy.enqueue, or_comm]

theorem path_mono {R S : String → String → Prop} (h : ReflTransGen R a b)
    (hRS : ∀ c d, R c d → S c d) : ReflTransGen S a b := ReflTransGen.mono hRS a b h

/-- A path that ends elsewhere avoids a name, or does so after it was there last. -/
theorem avoid {R : String → String → Prop} (h : ReflTransGen R a x) (hx : x ≠ name) :
    (a ≠ name ∧ ReflTransGen (fun c d => R c d ∧ c ≠ name) a x) ∨
      ∃ b, R name b ∧ ReflTransGen (fun c d => R c d ∧ c ≠ name) b x := by
  induction h using ReflTransGen.head_induction_on with
  | refl => exact .inl ⟨hx, .refl⟩
  | @head a b hab hbx ih =>
    rcases ih with ⟨_, hpath⟩ | hlast
    · by_cases ha : a = name
      · exact .inr ⟨b, ha ▸ hab, hpath⟩
      · exact .inl ⟨ha, .head ⟨hab, ha⟩ hpath⟩
    · exact .inr hlast

theorem follows_cons (h : Follows nodes links seen a b) (ha : a ≠ name) :
    Follows nodes links (name :: seen) a b := ⟨h.1, by simp [ha, h.2.1], h.2.2⟩

theorem follows_of_cons (h : Follows nodes links (name :: seen) a b) :
    Follows nodes links seen a b := ⟨h.1, fun hs => h.2.1 (List.mem_cons_of_mem _ hs), h.2.2⟩

/-- Everything found is a node that was not seen, at the end of a path. -/
theorem path_of_mem_reach (h : x ∈ reach nodes links strategy seen waiting) :
    x ∈ nodes ∧ x ∉ seen ∧ ∃ w ∈ waiting, ReflTransGen (Follows nodes links seen) w x := by
  fun_induction reach nodes links strategy seen waiting with
  | case1 => cases h
  | case2 seen name waiting hseen ih =>
    obtain ⟨hn, hs, w, hw, hpath⟩ := ih h
    exact ⟨hn, hs, w, List.mem_cons_of_mem _ hw, hpath⟩
  | case3 seen name waiting hseen hnode ih =>
    have hname : name ∈ nodes ∧ name ∉ seen := by simpa using And.intro hnode hseen
    rcases List.mem_cons.mp h with rfl | h
    · exact ⟨hname.1, hname.2, x, List.mem_cons_self, .refl⟩
    · obtain ⟨hn, hs, w, hw, hpath⟩ := ih h
      have hpath := path_mono hpath fun _ _ => follows_of_cons
      refine ⟨hn, fun hx => hs (List.mem_cons_of_mem _ hx), ?_⟩
      rcases mem_enqueue.mp hw with hw | hw
      · exact ⟨name, List.mem_cons_self, .head ⟨hname.1, hname.2, hw⟩ hpath⟩
      · exact ⟨w, List.mem_cons_of_mem _ hw, hpath⟩
  | case4 seen name waiting hseen hnode ih =>
    obtain ⟨hn, hs, w, hw, hpath⟩ := ih h
    exact ⟨hn, fun hx => hs (List.mem_cons_of_mem _ hx), w, List.mem_cons_of_mem _ hw,
      path_mono hpath fun _ _ => follows_of_cons⟩

/-- A path from a name that is seen leads nowhere. -/
theorem path_from_seen (h : ReflTransGen (Follows nodes links seen) a x) (ha : a ∈ seen) :
    x = a := by
  induction h using ReflTransGen.head_induction_on with
  | refl => rfl
  | head hab _ _ => exact absurd ha hab.2.1

theorem mem_reach_of_path (hn : x ∈ nodes) (hs : x ∉ seen) (hw : a ∈ waiting)
    (hpath : ReflTransGen (Follows nodes links seen) a x) :
    x ∈ reach nodes links strategy seen waiting := by
  fun_induction reach nodes links strategy seen waiting generalizing a with
  | case1 => cases hw
  | case2 seen name waiting hseen ih =>
    rcases List.mem_cons.mp hw with rfl | hw
    · have hmem : a ∈ seen := by simpa using hseen
      exact absurd (path_from_seen hpath hmem ▸ hmem) hs
    · exact ih hs hw hpath
  | case3 seen name waiting hseen hnode ih =>
    by_cases hx : x = name
    · exact hx ▸ List.mem_cons_self
    have hs' : x ∉ name :: seen := by simp [hx, hs]
    refine List.mem_cons_of_mem _ ?_
    -- the name is seen from now on: what is left of the path may not come back to it
    rcases avoid hpath hx with ⟨ha, hpath⟩ | ⟨b, hb, hpath⟩
    · have hw := (List.mem_cons.mp hw).resolve_left ha
      exact ih hs' (mem_enqueue.mpr (.inr hw)) (path_mono hpath fun _ _ h => follows_cons h.1 h.2)
    · exact ih hs' (mem_enqueue.mpr (.inl hb.2.2))
        (path_mono hpath fun _ _ h => follows_cons h.1 h.2)
  | case4 seen name waiting hseen hnode ih =>
    have hnode : name ∉ nodes := by simpa using hnode
    have hx : x ≠ name := fun h => hnode (h ▸ hn)
    have hs' : x ∉ name :: seen := by simp [hx, hs]
    rcases avoid hpath hx with ⟨ha, hpath⟩ | ⟨b, hb, _⟩
    · exact ih hs' ((List.mem_cons.mp hw).resolve_left ha)
        (path_mono hpath fun _ _ h => follows_cons h.1 h.2)
    · exact absurd hb.1 hnode

theorem mem_reach : x ∈ reach nodes links strategy seen waiting ↔
    x ∈ nodes ∧ x ∉ seen ∧ ∃ w ∈ waiting, ReflTransGen (Follows nodes links seen) w x :=
  ⟨path_of_mem_reach, fun ⟨hn, hs, _, hw, hpath⟩ => mem_reach_of_path hn hs hw hpath⟩

/-- No name is found twice. -/
theorem reach_nodup : (reach nodes links strategy seen waiting).Nodup := by
  fun_induction reach nodes links strategy seen waiting with
  | case1 => exact .nil
  | case2 seen name waiting hseen ih => exact ih
  | case3 seen name waiting hseen hnode ih =>
    exact List.nodup_cons.mpr ⟨fun h => (mem_reach.mp h).2.1 List.mem_cons_self, ih⟩
  | case4 seen name waiting hseen hnode ih => exact ih

end EntitySchema.Closure
