import EntitySchema.Text.Blank
import EntitySchema.Text.Casing

/-! Lower case is settled: putting a text in lower case a second time changes nothing,
and no character becomes white space by it. Both are read off the table of the case
data, whose images are no characters that it moves. -/

namespace EntitySchema.Text

open Casing (lowerRuns lowerChar lowerAfter shifted?)

/-- Lower case leaves the character as it is, wherever it stands. -/
def Settled (c : Char) : Prop := c.toNat ≠ 0x3A3 ∧ lowerChar c = [c]

instance {c : Char} : Decidable (Settled c) := inferInstanceAs (Decidable (_ ∧ _))

namespace Casing

/-! ### The table -/

/-- The code points to which a run moves its items: the first and the last. -/
abbrev bounds (run : Nat × Nat × Nat × Int) : Nat × Nat :=
  (Int.toNat (run.1 + run.2.2.2), Int.toNat (run.2.1 + run.2.2.2))

/-- Code points that are white space, and those that `lower` treats by themselves. -/
def special : List Nat := [
  0x20, 0x85, 0xA0, 0x130, 0x3A3, 0x1680, 0x2000, 0x2001, 0x2002, 0x2003, 0x2004, 0x2005, 0x2006,
  0x2007, 0x2008, 0x2009, 0x200A, 0x2028, 0x2029, 0x202F, 0x205F, 0x3000]

/-- The run moves its items by a whole number of steps, to characters that are not
special and no capitals of ASCII. -/
def lands (run : Nat × Nat × Nat × Int) : Bool :=
  run.2.2.1 ≠ 0 && 0 ≤ (run.1 + run.2.2.2 : Int) && run.1 ≤ run.2.1 && 90 < (bounds run).1 &&
    ((bounds run).2 < 0xD800 || 0xDFFF < (bounds run).1 && (bounds run).2 < 0x110000) &&
    special.all fun n => n < (bounds run).1 || (bounds run).2 < n

/-- No item of the first run is moved to an item of the second: they lie apart, or the
items of the second are every other code point, and these are the others. -/
def clear (run other : Nat × Nat × Nat × Int) : Bool :=
  (bounds run).2 < other.1 || other.2.1 < (bounds run).1 ||
    other.2.2.1 = 2 && (run.2.2.1 = 2 || run.1 = run.2.1) && ((bounds run).1 + other.1) % 2 = 1

theorem lowerRuns_land : lowerRuns.all lands = true := by decide +kernel

theorem lowerRuns_clear : (lowerRuns.all fun run => lowerRuns.all (clear run)) = true := by
  decide +kernel

/-- A code point that is moved is an item of a run. -/
theorem shifted?_item {n k : Nat} (h : shifted? lowerRuns n = some k) : ∃ run ∈ lowerRuns,
    run.1 ≤ n ∧ n ≤ run.2.1 ∧ (n - run.1) % run.2.2.1 = 0 ∧ k = Int.toNat (n + run.2.2.2) := by
  obtain ⟨⟨first, last, step, shift⟩, hrun, h⟩ := List.exists_of_findSome?_eq_some h
  dsimp only at h
  split at h
  · next hin =>
    cases h
    obtain ⟨⟨hfirst, hlast⟩, hstep⟩ : (first ≤ n ∧ n ≤ last) ∧ (n - first) % step = 0 := by
      simpa using hin
    exact ⟨_, hrun, hfirst, hlast, hstep, rfl⟩
  · cases h

/-- No code point is moved twice. -/
theorem shifted?_moved {n k : Nat} (h : shifted? lowerRuns n = some k) :
    shifted? lowerRuns k = none := by
  refine Option.eq_none_iff_forall_ne_some.mpr fun k' hk' => ?_
  obtain ⟨run, hrun, hfirst, hlast, hstep, rfl⟩ := shifted?_item h
  obtain ⟨other, hother, hfirst', hlast', hstep', -⟩ := shifted?_item hk'
  have hlands := List.all_eq_true.mp lowerRuns_land run hrun
  have hclear := List.all_eq_true.mp (List.all_eq_true.mp lowerRuns_clear run hrun) other hother
  obtain ⟨first, last, step, shift⟩ := run
  obtain ⟨first', last', step', shift'⟩ := other
  dsimp only [lands, clear, bounds] at hlands hclear
  simp only [Bool.and_eq_true, decide_eq_true_eq] at hlands
  simp only [Bool.or_eq_true, Bool.and_eq_true, decide_eq_true_eq] at hclear
  dsimp only at hfirst hlast hstep hfirst' hlast' hstep'
  rcases hclear with (hbelow | habove) | ⟨⟨rfl, hstep2 | hsingle⟩, hodd⟩
  · omega
  · omega
  · subst hstep2
    omega
  · omega

theorem special_of_moved {n k : Nat} (h : shifted? lowerRuns n = some k) :
    90 < k ∧ k.isValidChar ∧ k ∉ special := by
  obtain ⟨run, hrun, hfirst, hlast, -, rfl⟩ := shifted?_item h
  have hlands := List.all_eq_true.mp lowerRuns_land run hrun
  obtain ⟨first, last, step, shift⟩ := run
  dsimp only [lands, bounds] at hlands
  simp only [Bool.and_eq_true, Bool.or_eq_true, decide_eq_true_eq, List.all_eq_true] at hlands
  obtain ⟨⟨⟨⟨_, hordered⟩, hcapital⟩, hvalid⟩, hspecial⟩ := hlands
  dsimp only at hfirst hlast ⊢
  refine ⟨by omega, ?_, fun hmem => ?_⟩
  · unfold Nat.isValidChar
    omega
  · have := hspecial _ hmem
    omega

theorem isSpace_eq_false {c : Char} (h : 90 < c.toNat) (hspecial : c.toNat ∉ special) :
    isSpace c = false := by
  rw [← Bool.not_eq_true]
  intro hspace
  simp only [isSpace, Bool.or_eq_true, Bool.and_eq_true, decide_eq_true_eq, beq_iff_eq] at hspace
  simp only [special, List.mem_cons, List.not_mem_nil, or_false, not_or] at hspecial
  omega

/-! ### Characters and texts -/

theorem ascii_settled : ∀ n < 0x80, Settled (Char.ofNat n).toLower ∧
    (isSpace (Char.ofNat n) = false → isSpace (Char.ofNat n).toLower = false) := by
  decide +kernel

theorem ascii_toLower : ∀ n < 0x80, 90 < n → (Char.ofNat n).toLower = Char.ofNat n := by
  decide +kernel

theorem settled_of_unmoved {c : Char} (hascii : ¬c.toNat < 0x80) (hdotted : c.toNat ≠ 0x130)
    (hsigma : c.toNat ≠ 0x3A3) (h : shifted? lowerRuns c.toNat = none) : Settled c := by
  refine ⟨hsigma, ?_⟩
  unfold lowerChar
  rw [if_neg hascii, if_neg (by simpa using hdotted), h]

/-- A dotted capital becomes two characters, a letter and a dot. -/
theorem dotted_settled : ∀ d ∈ ['i', Char.ofNat 0x307], Settled d ∧ isSpace d = false := by
  refine List.forall_mem_cons.mpr ⟨by decide, List.forall_mem_singleton.mpr ⟨?_, by decide⟩⟩
  exact settled_of_unmoved (by decide) (by decide) (by decide) (by decide +kernel)

/-- A character in lower case is settled, and white space only if it was. -/
theorem lowerChar_settled {c d : Char} (hsigma : c.toNat ≠ 0x3A3) (hd : d ∈ lowerChar c) :
    Settled d ∧ (isSpace c = false → isSpace d = false) := by
  have hlower := hd
  unfold lowerChar at hd
  split at hd
  · next hascii =>
    obtain rfl := List.mem_singleton.mp hd
    have h := ascii_settled c.toNat hascii
    rwa [Char.ofNat_toNat] at h
  · next hascii =>
    split at hd
    · exact (dotted_settled d hd).imp_right fun h _ => h
    · next hdotted =>
      cases hmoved : shifted? lowerRuns c.toNat with
      | some k =>
        rw [hmoved] at hd
        obtain rfl := List.mem_singleton.mp hd
        obtain ⟨hcapital, hvalid, hspecial⟩ := special_of_moved hmoved
        have hcode : (Char.ofNat k).toNat = k := by
          rw [Char.ofNat, dif_pos hvalid]
          rfl
        refine ⟨?_, fun _ => isSpace_eq_false (hcode.symm ▸ hcapital) (hcode.symm ▸ hspecial)⟩
        by_cases hascii' : k < 0x80
        · have h := (ascii_settled k hascii').1
          rwa [ascii_toLower k hascii' hcapital] at h
        · have hother : ∀ n ∈ special, (Char.ofNat k).toNat ≠ n := fun n hn heq =>
            hspecial ((hcode.symm.trans heq) ▸ hn)
          exact settled_of_unmoved (hcode.symm ▸ hascii') (hother _ (by decide))
            (hother _ (by decide)) (hcode.symm ▸ shifted?_moved hmoved)
      | none =>
        rw [hmoved] at hd
        obtain rfl := List.mem_singleton.mp hd
        exact ⟨settled_of_unmoved hascii (by simpa using hdotted) hsigma hmoved, id⟩

theorem sigmas_settled : (Settled (Char.ofNat 0x3C2) ∧ isSpace (Char.ofNat 0x3C2) = false) ∧
    Settled (Char.ofNat 0x3C3) ∧ isSpace (Char.ofNat 0x3C3) = false := by
  refine ⟨⟨?_, by decide⟩, ?_, by decide⟩
  all_goals exact settled_of_unmoved (by decide) (by decide) (by decide) (by decide +kernel)

/-- Every character of the text in lower case is one of a character, or a sigma. -/
theorem lowerAfter_settled : ∀ {before cs : List Char} {d : Char}, d ∈ lowerAfter before cs →
    Settled d ∧ ((∀ c ∈ cs, isSpace c = false) → isSpace d = false)
  | before, c :: rest, d, hd => by
    unfold lowerAfter at hd
    split at hd
    · rcases List.mem_cons.mp hd with rfl | hd
      · split
        · exact sigmas_settled.1.imp_right fun h _ => h
        · exact sigmas_settled.2.imp_right fun h _ => h
      · exact (lowerAfter_settled hd).imp_right fun h hcs =>
          h fun x hx => hcs x (List.mem_cons_of_mem _ hx)
    · next hsigma =>
      rcases List.mem_append.mp hd with hd | hd
      · exact (lowerChar_settled (by simpa using hsigma) hd).imp_right fun h hcs =>
          h (hcs c List.mem_cons_self)
      · exact (lowerAfter_settled hd).imp_right fun h hcs =>
          h fun x hx => hcs x (List.mem_cons_of_mem _ hx)

theorem lowerAfter_of_settled : ∀ {before cs : List Char}, (∀ c ∈ cs, Settled c) →
    lowerAfter before cs = cs
  | _, [], _ => rfl
  | before, c :: rest, h => by
    obtain ⟨hc, hrest⟩ := List.forall_mem_cons.mp h
    unfold lowerAfter
    rw [if_neg (by simpa using hc.1), hc.2, lowerAfter_of_settled hrest]
    rfl

end Casing

@[simp]
theorem lower_lower (s : String) : lower (lower s) = lower s := by
  have hsettled : ∀ c ∈ lowerAfter [] s.toList, Settled c :=
    fun c hc => (Casing.lowerAfter_settled hc).1
  rw [lower, lower, String.toList_ofList, Casing.lowerAfter_of_settled hsettled]

theorem hasSpace_lower {s : String} (h : hasSpace s = false) : hasSpace (lower s) = false := by
  unfold hasSpace at h ⊢
  rw [List.any_eq_false] at h ⊢
  intro d hd
  rw [lower, String.toList_ofList] at hd
  simpa using (Casing.lowerAfter_settled hd).2 fun c hc => by simpa using h c hc

end EntitySchema.Text
