import EntitySchema.Proofs.CutNames
import Mathlib.Data.Finset.Card
import Mathlib.Data.Nat.Find

/-! The search for a free name. It looks at the base, the base with a suffix, then with a
numbered suffix, each cut to the limit, and stops at the first that is not taken. Without a
limit no two of these names are the same, so among one more of them than names are taken there
is a free one. -/

namespace EntitySchema.Identifier

variable {base name : String} {limit? : Option Nat} {taken : List String}
  {fuel limit start n k : Nat}

/-! ### The names that are tried -/

/-- What the `n`-th name adds to the base. -/
def suffix : Nat → String
  | 0 => ""
  | 1 => "_mref"
  | n + 2 => "_mref_" ++ toString (n + 2)

theorem candidate_eq (base : String) (n : Nat) : candidate base n = base ++ suffix n := by
  match n with
  | 0 => exact String.append_empty.symm
  | 1 => rfl
  | n + 2 => exact String.append_assoc

theorem toString_injective : Function.Injective (toString : Nat → String) := by
  intro i j h
  have hdigits : Nat.toDigits 10 i = Nat.toDigits 10 j := by
    simpa [Nat.toString_eq_ofList_toDigits] using congrArg String.toList h
  calc
    i = Nat.ofDigitChars 10 (Nat.toDigits 10 i) 0 := Nat.ofDigitChars_ten_toDigits.symm
    _ = Nat.ofDigitChars 10 (Nat.toDigits 10 j) 0 := by rw [hdigits]
    _ = j := Nat.ofDigitChars_ten_toDigits

/-- A numbered suffix is longer than the one without a number. -/
theorem suffix_length (n : Nat) : 6 ≤ (suffix (n + 2)).length := by
  rw [suffix, String.length_append]
  exact Nat.le_add_right 6 _

theorem suffix_injective : Function.Injective suffix := by
  intro i j h
  have hlength := congrArg String.length h
  match i, j with
  | 0, 0 | 1, 1 => rfl
  | 0, 1 | 1, 0 => cases hlength
  | 0, j + 2 | 1, j + 2 =>
    have hlong := suffix_length j
    rw [← hlength] at hlong
    exact absurd hlong (by decide)
  | i + 2, 0 | i + 2, 1 =>
    have hlong := suffix_length i
    rw [hlength] at hlong
    exact absurd hlong (by decide)
  | i + 2, j + 2 => exact toString_injective ((String.append_right_inj "_mref_").mp h)

/-- No two of the names that are tried are the same, before they are cut. -/
theorem candidate_injective (base : String) : Function.Injective (candidate base) := by
  intro i j h
  rw [candidate_eq, candidate_eq] at h
  exact suffix_injective ((String.append_right_inj base).mp h)

/-! ### The search -/

/-- The search without a bound: begun at the `n`-th name, it ends with this name. -/
inductive Finds (base : String) (limit? : Option Nat) (taken : List String) : Nat → String → Prop
  | free {n : Nat} (h : mangle (candidate base n) limit? ∉ taken) :
      Finds base limit? taken n (mangle (candidate base n) limit?)
  | next {n : Nat} {name : String} (h : mangle (candidate base n) limit? ∈ taken)
      (rest : Finds base limit? taken (n + 1) name) : Finds base limit? taken n name

/-- The `n`-th name is the first from `start` on that is not taken. -/
structure IsFirst (base : String) (limit? : Option Nat) (taken : List String) (start n : Nat) :
    Prop where
  from_start : start ≤ n
  free : mangle (candidate base n) limit? ∉ taken
  before : ∀ k, start ≤ k → k < n → mangle (candidate base k) limit? ∈ taken

namespace IsFirst

theorem here (h : mangle (candidate base n) limit? ∉ taken) : IsFirst base limit? taken n n :=
  ⟨Nat.le_refl n, h, fun _ hle hlt => absurd hlt (Nat.not_lt.mpr hle)⟩

theorem next (h : mangle (candidate base start) limit? ∈ taken)
    (hfirst : IsFirst base limit? taken (start + 1) n) : IsFirst base limit? taken start n := by
  refine ⟨Nat.le_of_succ_le hfirst.from_start, hfirst.free, fun k hle hlt => ?_⟩
  rcases Nat.eq_or_lt_of_le hle with rfl | hlater
  · exact h
  · exact hfirst.before k hlater hlt

/-- It is the one where the search stands, or that one is taken. -/
theorem cases (h : IsFirst base limit? taken start n) :
    start = n ∧ mangle (candidate base start) limit? ∉ taken ∨
      mangle (candidate base start) limit? ∈ taken ∧ IsFirst base limit? taken (start + 1) n := by
  rcases Nat.eq_or_lt_of_le h.from_start with rfl | hlater
  · exact .inl ⟨rfl, h.free⟩
  · exact .inr ⟨h.before start (Nat.le_refl start) hlater,
      hlater, h.free, fun k hle => h.before k (Nat.le_of_succ_le hle)⟩

theorem finds (h : IsFirst base limit? taken start n) :
    Finds base limit? taken start (mangle (candidate base n) limit?) := by
  -- The induction is on how far the name is from where the search stands.
  induction hsteps : n - start generalizing start with
  | zero =>
    obtain rfl : n = start := Nat.le_antisymm (Nat.le_of_sub_eq_zero hsteps) h.from_start
    exact .free h.free
  | succ steps ih =>
    rcases h.cases with ⟨rfl, -⟩ | ⟨htaken, hrest⟩
    · exact absurd hsteps (by omega)
    · exact .next htaken (ih hrest (by omega))

end IsFirst

/-- If there is a free name, there is a first one. -/
theorem exists_first (hstart : start ≤ k) (hfree : mangle (candidate base k) limit? ∉ taken) :
    ∃ n ≤ k, IsFirst base limit? taken start n := by
  have hexists : ∃ n, start ≤ n ∧ mangle (candidate base n) limit? ∉ taken := ⟨k, hstart, hfree⟩
  obtain ⟨hle, hfound⟩ := Nat.find_spec hexists
  refine ⟨Nat.find hexists, Nat.find_le ⟨hstart, hfree⟩, hle, hfound, fun j hj hlt => ?_⟩
  by_contra hnot
  exact Nat.find_min hexists hlt ⟨hj, hnot⟩

theorem finds_iff : Finds base limit? taken start name ↔
    ∃ n, IsFirst base limit? taken start n ∧ name = mangle (candidate base n) limit? := by
  constructor
  · intro h
    induction h with
    | free h => exact ⟨_, .here h, rfl⟩
    | next h _ ih =>
      obtain ⟨n, hfirst, hname⟩ := ih
      exact ⟨n, hfirst.next h, hname⟩
  · rintro ⟨n, hfirst, rfl⟩
    exact hfirst.finds

/-- With fuel, the search finds what it does without a bound, as long as the fuel lasts. -/
theorem seekFree_eq_some_iff : seekFree base limit? taken fuel start = some name ↔
    ∃ n < start + fuel, IsFirst base limit? taken start n ∧
      name = mangle (candidate base n) limit? := by
  induction fuel generalizing start with
  | zero =>
    constructor
    · intro h
      cases h
    · rintro ⟨n, hlt, hfirst, -⟩
      exact absurd hfirst.from_start (Nat.not_le.mpr hlt)
  | succ fuel ih =>
    unfold seekFree
    dsimp only
    split
    · next htaken =>
      have htaken : mangle (candidate base start) limit? ∈ taken := by simpa using htaken
      rw [ih, Nat.add_right_comm, Nat.add_assoc]
      refine exists_congr fun n => and_congr_right fun _ => and_congr_left fun _ => ?_
      refine ⟨.next htaken, fun hfirst => ?_⟩
      rcases hfirst.cases with ⟨-, hfree⟩ | ⟨-, hrest⟩
      · exact absurd htaken hfree
      · exact hrest
    · next hfree =>
      have hfree : mangle (candidate base start) limit? ∉ taken := by simpa using hfree
      constructor
      · rintro h
        cases h
        exact ⟨start, by omega, .here hfree, rfl⟩
      · rintro ⟨n, -, hfirst, rfl⟩
        rcases hfirst.cases with ⟨rfl, -⟩ | ⟨htaken, -⟩
        · rfl
        · exact absurd htaken hfree

theorem free?_eq_some_iff : free? base limit? taken = some name ↔
    ∃ n < attempts limit? taken, IsFirst base limit? taken 0 n ∧
      name = mangle (candidate base n) limit? := by
  unfold free?
  rw [seekFree_eq_some_iff, Nat.zero_add]

/-- With fuel, what is found is what the search without a bound ends with. -/
theorem free?_finds (h : free? base limit? taken = some name) :
    Finds base limit? taken 0 name := by
  obtain ⟨n, -, hfirst, hname⟩ := free?_eq_some_iff.mp h
  exact finds_iff.mpr ⟨n, hfirst, hname⟩

theorem Finds.fresh (h : Finds base limit? taken start name) : name ∉ taken := by
  obtain ⟨n, hfirst, rfl⟩ := finds_iff.mp h
  exact hfirst.free

theorem free?_fresh (h : free? base limit? taken = some name) : name ∉ taken :=
  (free?_finds h).fresh

theorem Finds.length_le (hlimit : digestLength < limit)
    (h : Finds base (some limit) taken start name) : name.length ≤ limit := by
  obtain ⟨n, -, rfl⟩ := finds_iff.mp h
  exact mangle_length hlimit _

theorem free?_length (hlimit : digestLength < limit)
    (h : free? base (some limit) taken = some name) : name.length ≤ limit :=
  (free?_finds h).length_le hlimit

/-! ### Without a limit -/

/-- Not all of the first names can be taken: that would be more than are taken. -/
theorem exists_free (base : String) (taken : List String) :
    ∃ k ≤ taken.toFinset.card, candidate base k ∉ taken := by
  by_contra hnone
  have htaken : ∀ k ≤ taken.toFinset.card, candidate base k ∈ taken := by simpa using hnone
  have hsubset : (Finset.range (taken.toFinset.card + 1)).image (candidate base) ⊆
      taken.toFinset := by
    intro name hname
    obtain ⟨k, hk, rfl⟩ := Finset.mem_image.mp hname
    exact List.mem_toFinset.mpr (htaken k (Nat.le_of_lt_succ (Finset.mem_range.mp hk)))
  have hcard := Finset.card_le_card hsubset
  rw [Finset.card_image_of_injective _ (candidate_injective base), Finset.card_range] at hcard
  exact Nat.not_succ_le_self _ hcard

theorem free?_unlimited (base : String) (taken : List String) :
    ∃ n ≤ taken.toFinset.card, IsFirst base none taken 0 n ∧
      free? base none taken = some (candidate base n) := by
  obtain ⟨k, hk, hfree⟩ := exists_free base taken
  have hfree : mangle (candidate base k) none ∉ taken := hfree
  obtain ⟨n, hn, hfirst⟩ := exists_first (Nat.zero_le k) hfree
  have hbound : taken.toFinset.card ≤ taken.length := taken.toFinset_card_le
  refine ⟨n, hn.trans hk, hfirst, free?_eq_some_iff.mpr ⟨n, ?_, hfirst, rfl⟩⟩
  exact Nat.lt_succ_of_le ((hn.trans hk).trans hbound)

/-! ### What is found -/

/-- What the search ends with is not taken, fits the limit, and is the first of the cut names that
is not taken. With fuel it finds the same, or it gives up after as many names as there are
attempts; without a limit it never does, and the name it finds comes after at most as many as
are taken. -/
theorem free_name_first (base : String) (taken : List String)
    (hlimit : ∀ limit, limit? = some limit → 5 < limit) :
    (∀ name, Finds base limit? taken 0 name →
      name ∉ taken ∧ (∀ limit, limit? = some limit → name.length ≤ limit) ∧
      ∃ n, IsFirst base limit? taken 0 n ∧ name = mangle (candidate base n) limit?) ∧
    (∀ name, free? base limit? taken = some name → Finds base limit? taken 0 name) ∧
    (∀ name, free? base limit? taken = some name ↔ ∃ n < attempts limit? taken,
      IsFirst base limit? taken 0 n ∧ name = mangle (candidate base n) limit?) ∧
    (limit? = none → ∃ n ≤ taken.toFinset.card,
      IsFirst base none taken 0 n ∧ free? base limit? taken = some (candidate base n)) := by
  refine ⟨fun name h => ⟨h.fresh, ?_, finds_iff.mp h⟩, fun name => free?_finds,
    fun name => free?_eq_some_iff, ?_⟩
  · rintro limit rfl
    exact h.length_le (hlimit limit rfl)
  · rintro rfl
    exact free?_unlimited base taken

/-- The base is taken, and so is what is made of it with the suffix. -/
theorem protocols_free :
    (∀ limit, some 30 = some limit → 5 < limit) ∧
    free? "ProtocolApplication_protocols" (some 30)
      ["ProtocolApplication_protocols", "ProtocolApplication_proto42712"] =
        some "ProtocolApplication_proto18066" ∧
    IsFirst "ProtocolApplication_protocols" (some 30)
      ["ProtocolApplication_protocols", "ProtocolApplication_proto42712"] 0 2 ∧
    "ProtocolApplication_proto18066".length ≤ 30 := by
  have hlimit : ∀ limit, some 30 = some limit → 5 < limit := by
    rintro limit ⟨⟩
    decide
  have hfree : free? "ProtocolApplication_protocols" (some 30)
      ["ProtocolApplication_protocols", "ProtocolApplication_proto42712"] =
        some "ProtocolApplication_proto18066" := by decide +kernel
  have hfirst : IsFirst "ProtocolApplication_protocols" (some 30)
      ["ProtocolApplication_protocols", "ProtocolApplication_proto42712"] 0 2 :=
    ⟨by decide, by decide +kernel, fun k _ hk => by
      match k, hk with
      | 0, _ | 1, _ => decide +kernel⟩
  obtain ⟨hfound, hfinds, -, -⟩ := free_name_first "ProtocolApplication_protocols"
    ["ProtocolApplication_protocols", "ProtocolApplication_proto42712"] hlimit
  obtain ⟨-, hfits, -⟩ := hfound _ (hfinds _ hfree)
  exact ⟨hlimit, hfree, hfirst, hfits 30 rfl⟩

end EntitySchema.Identifier
