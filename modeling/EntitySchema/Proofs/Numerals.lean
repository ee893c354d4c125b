import EntitySchema.Text.Numeral

/-! Which texts write a number: digits in ASCII, at least one, after at most one plus sign.
The reader takes such a text if the number is not above the largest one that is allowed, and
no other text; zeros in front do not count. -/

namespace EntitySchema.Text.Numeral

variable {s : String} {largest n n' acc : Nat} {cs digits : List Char}

/-- The text writes the number in base ten. -/
def Writes (s : String) (n : Nat) : Prop :=
  ∃ digits : List Char, digits ≠ [] ∧ (∀ c ∈ digits, c.isDigit = true) ∧
    (s.toList = digits ∨ s.toList = '+' :: digits) ∧ Nat.ofDigitChars 10 digits 0 = n

/-- The text writes the number, with white space around it perhaps, and the number is not
above the largest one. -/
def Fits (s : String) (largest n : Nat) : Prop := Writes (trim s) n ∧ n ≤ largest

example : max64 = Nat.pow 2 64 - 1 ∧ max32 = Nat.pow 2 32 - 1 := by decide

theorem digits?_eq_some_iff : digits? acc cs = some n ↔
    (∀ c ∈ cs, c.isDigit = true) ∧ Nat.ofDigitChars 10 cs acc = n := by
  induction cs generalizing acc with
  | nil => simp [digits?]
  | cons c rest ih =>
    rw [digits?, List.forall_mem_cons, Nat.ofDigitChars_cons]
    by_cases hc : c.isDigit = true
    · rw [if_pos hc, ih, and_iff_right hc]
    · rw [if_neg hc]
      simp [hc]

/-- The characters without a plus sign in front. -/
def unsigned : List Char → List Char
  | '+' :: rest => rest
  | cs => cs

/-- A plus sign is no digit, so one of the two forms is what the characters are. -/
theorem unsigned_eq_iff (hdigits : ∀ c ∈ digits, c.isDigit = true) :
    unsigned cs = digits ↔ cs = digits ∨ cs = '+' :: digits := by
  unfold unsigned
  split
  · next rest =>
    have hsign : '+' :: rest ≠ digits := by
      rintro rfl
      exact absurd (hdigits '+' List.mem_cons_self) (by decide)
    simp [hsign]
  · next hunsigned =>
    exact ⟨.inl, fun h => h.resolve_right fun hsigned => hunsigned _ hsigned⟩

theorem read?_eq (largest : Nat) (s : String) :
    read? largest s = match unsigned s.toList with
      | [] => none
      | cs => (digits? 0 cs).filter (· ≤ largest) := rfl

/-- The reader takes what writes a number that is not too large, and finds this number. -/
theorem read?_eq_some_iff : read? largest s = some n ↔ Writes s n ∧ n ≤ largest := by
  rw [read?_eq]
  constructor
  · intro h
    split at h
    · cases h
    · next hempty =>
      obtain ⟨hread, hle⟩ := Option.filter_eq_some_iff.mp h
      obtain ⟨hdigits, hvalue⟩ := digits?_eq_some_iff.mp hread
      exact ⟨⟨_, hempty, hdigits, (unsigned_eq_iff hdigits).mp rfl, hvalue⟩,
        of_decide_eq_true hle⟩
  · rintro ⟨⟨digits, hempty, hdigits, hform, hvalue⟩, hle⟩
    rw [(unsigned_eq_iff hdigits).mpr hform]
    split
    · contradiction
    · exact Option.filter_eq_some_iff.mpr
        ⟨digits?_eq_some_iff.mpr ⟨hdigits, hvalue⟩, decide_eq_true hle⟩

example : read? max32 "+004294967295" = some 4294967295 ∧ read? max32 "4294967296" = none := by
  decide

/-- A text writes one number at most. -/
theorem Writes.unique (h : Writes s n) (h' : Writes s n') : n = n' := by
  have hread := read?_eq_some_iff.mpr ⟨h, Nat.le_max_left n n'⟩
  rw [read?_eq_some_iff.mpr ⟨h', Nat.le_max_right n n'⟩] at hread
  exact (Option.some.inj hread).symm

end EntitySchema.Text.Numeral
