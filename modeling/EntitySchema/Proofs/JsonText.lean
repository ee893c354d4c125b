import EntitySchema.Json.Printer
import EntitySchema.Json.Reader
import Mathlib.Data.List.TakeWhile

/-! Reading JSON that was written with indentation. Each escape stands for the character
that was written as it, a numeral ends where no digit follows, and every list and object
at its own closing mark; so a value is read back from its written form, however deeply
it nests. -/

namespace EntitySchema.Json

open Text.Numeral (hex?)

variable {cs rest : List Char} {fuel depth before n : Nat}

/-! ### Texts -/

theorem hex?_control : ∀ n < 0x20, hex? 0 ['0', '0', hexDigit (n / 16), hexDigit n] = some n := by
  decide

theorem readChars_unicode {a b c d : Char} (rest : List Char)
    (h : hex? 0 [a, b, c, d] = some n) (hn : n < 0xD800) :
    readChars ('\\' :: 'u' :: a :: b :: c :: d :: rest) =
      (readChars rest).bind fun read => some (Char.ofNat n :: read.1, read.2) := by
  have hhigh : isHigh n = false := by simp [isHigh]; omega
  have hlow : isLow n = false := by simp [isLow]; omega
  rw [readChars.eq_def]
  split
  · next hcs => cases hcs
  · next hcs => cases hcs
  · next hcs =>
    cases hcs
    simp [h, hhigh, hlow]
  · next hcs =>
    cases hcs
    simp [h, hhigh, hlow]
  · next hother hcs =>
    cases hcs
    exact absurd rfl (hother _ _ _ _ _ rfl)
  · next hother hcs =>
    cases hcs
    exact absurd rfl (hother _ _ rfl)

theorem readChars_plain {c : Char} (hquote : c ≠ '"') (hback : c ≠ '\\')
    (hcontrol : ¬c.toNat < 0x20) :
    readChars (c :: rest) = (readChars rest).bind fun read => some (c :: read.1, read.2) := by
  rw [readChars.eq_def]
  split
  · next hcs => cases hcs
  · next hcs => cases hcs; exact absurd rfl hquote
  · next hcs => cases hcs; exact absurd rfl hback
  · next hcs => cases hcs; exact absurd rfl hback
  · next hcs => cases hcs; exact absurd rfl hback
  · next hcs =>
    cases hcs
    simp [hback, hcontrol]

theorem readChars_escape (c : Char) (rest : List Char) :
    readChars (escape c ++ rest) =
      (readChars rest).bind fun read => some (c :: read.1, read.2) := by
  unfold escape
  split
  · next h => subst h; simp [readChars, unescape?]
  split
  · next h => subst h; simp [readChars, unescape?]
  split
  · next h => subst h; simp [readChars, unescape?]
  split
  · next h => subst h; simp [readChars, unescape?]
  split
  · next h => subst h; simp [readChars, unescape?]
  split
  · next h =>
    obtain rfl : c = Char.ofNat 8 := by rw [← h, Char.ofNat_toNat]
    simp [readChars, unescape?]
  split
  · next h =>
    obtain rfl : c = Char.ofNat 12 := by rw [← h, Char.ofNat_toNat]
    simp [readChars, unescape?]
  split
  · next h =>
    have hread := readChars_unicode rest (hex?_control c.toNat h) (by omega)
    rwa [Char.ofNat_toNat] at hread
  · exact readChars_plain ‹_› ‹_› ‹_›

theorem readChars_flatMap (cs rest : List Char) :
    readChars (cs.flatMap escape ++ '"' :: rest) = some (cs, rest) := by
  induction cs with
  | nil => simp [readChars]
  | cons c cs ih => simp [List.append_assoc, readChars_escape, ih]

theorem readText_quoted (s : String) (rest : List Char) :
    readText (quoted s ++ rest) = some (s, rest) := by
  simp [quoted, readText, readChars_flatMap]

/-! ### Numbers -/

/-- A number does not go on here. -/
def EndsNumber (cs : List Char) : Prop := ∀ c ∈ cs.head?, c.isDigit = false

/-- Only the numeral of zero begins with a zero. -/
theorem toDigits_head (n : Nat) : 0 < n → (Nat.toDigits 10 n).head? ≠ some '0' := by
  induction n using Nat.strongRecOn with
  | _ n ih =>
    intro hpos
    by_cases hlt : n < 10
    · rw [Nat.toDigits_of_lt_base hlt]
      have hdigit : ∀ d < 10, 0 < d → [d.digitChar].head? ≠ some '0' := by decide
      exact hdigit n hlt hpos
    · rw [Nat.toDigits_of_base_le (by decide) (by omega)]
      have hfront := ih (n / 10) (by omega) (by omega)
      cases hdigits : Nat.toDigits 10 (n / 10) with
      | nil => exact absurd hdigits Nat.toDigits_ne_nil
      | cons d ds => simpa [hdigits] using hfront

theorem readNumber_toDigits (h : EndsNumber rest) :
    readNumber (Nat.toDigits 10 n ++ rest) = some (n, rest) := by
  have hdigits : ∀ c ∈ Nat.toDigits 10 n, c.isDigit = true := fun c hc =>
    Nat.isDigit_of_mem_toDigits (by decide) (by decide) hc
  have hends : rest.takeWhile Char.isDigit = [] ∧ rest.dropWhile Char.isDigit = rest := by
    cases rest with
    | nil => simp
    | cons c rest => simp [h c rfl]
  unfold readNumber
  rw [List.takeWhile_append_of_pos hdigits, List.dropWhile_append_of_pos hdigits, hends.1, hends.2,
    List.append_nil]
  split
  · next hnil => exact absurd hnil Nat.toDigits_ne_nil
  · next hzero =>
    rcases Nat.eq_zero_or_pos n with rfl | hpos
    · cases hzero
    · exact absurd (by rw [hzero]; rfl) (toDigits_head n hpos)
  · rw [Nat.ofDigitChars_ten_toDigits]

/-! ### Values -/

theorem skipBlank_blank {blanks : List Char} (h : ∀ c ∈ blanks, isBlank c) :
    skipBlank (blanks ++ cs) = skipBlank cs :=
  List.dropWhile_append_of_pos h

theorem newline_blank (depth : Nat) : ∀ c ∈ newline depth, isBlank c := by
  intro c hc
  rcases List.mem_cons.mp hc with rfl | hc
  · rfl
  · rw [List.eq_of_mem_replicate hc]
    rfl

/-- A value begins with no blank, and not with the end of a list. -/
theorem prettyAt_head (depth : Nat) (j : Json) :
    ∃ c more, prettyAt depth j = c :: more ∧ isBlank c = false ∧ c ≠ ']' := by
  have hplain : ∀ c, c.isDigit = true → isBlank c = false ∧ c ≠ ']' := by
    intro c hc
    have hne : ∀ d : Char, d.isDigit = false → c ≠ d := by
      rintro d hd rfl
      simp [hc] at hd
    simp [isBlank, hne]
  match j with
  | null => exact ⟨'n', _, rfl, by decide⟩
  | .bool true => exact ⟨'t', _, rfl, by decide⟩
  | .bool false => exact ⟨'f', _, rfl, by decide⟩
  | num n =>
    cases hdigits : Nat.toDigits 10 n with
    | nil => exact absurd hdigits Nat.toDigits_ne_nil
    | cons c more =>
      have hc : c ∈ Nat.toDigits 10 n := hdigits ▸ List.mem_cons_self
      exact ⟨c, more, hdigits, hplain c (Nat.isDigit_of_mem_toDigits (by decide) (by decide) hc)⟩
  | str s => exact ⟨'"', _, rfl, by decide⟩
  | arr [] => exact ⟨'[', _, rfl, by decide⟩
  | arr (item :: items) => exact ⟨'[', _, rfl, by decide⟩
  | obj [] => exact ⟨'\x7b', _, rfl, by decide⟩
  | obj ((name, value) :: members) => exact ⟨'\x7b', _, rfl, by decide⟩

theorem readValue_blank {blanks : List Char} (h : ∀ c ∈ blanks, isBlank c) :
    readValue fuel (blanks ++ cs) = readValue fuel cs := by
  cases fuel with
  | zero => rfl
  | succ fuel => simp only [readValue, skipBlank_blank h]

theorem skipBlank_head {c : Char} (hc : isBlank c = false) : skipBlank (c :: cs) = c :: cs :=
  List.dropWhile_cons_of_neg (by simp [hc])

theorem readValue_number (h : EndsNumber rest) :
    readValue (fuel + 1) (Nat.toDigits 10 n ++ rest) = some (num n, rest) := by
  have hread := readNumber_toDigits (n := n) h
  obtain ⟨c, more, hdigits, hblank, -⟩ := prettyAt_head 0 (num n)
  have hdigits : Nat.toDigits 10 n = c :: more := hdigits
  have hc : c.isDigit = true :=
    Nat.isDigit_of_mem_toDigits (b := 10) (n := n) (by decide) (by decide) (by simp [hdigits])
  rw [hdigits, List.cons_append] at hread ⊢
  rw [readValue, skipBlank_head hblank]
  have hmark : ∀ d : Char, d.isDigit = false → c ≠ d := by
    rintro d hd rfl
    simp [hc] at hd
  -- none of the marks with which other values begin is a digit
  split
  · next hcs => exact absurd (List.cons.inj hcs).1 (hmark _ rfl)
  · next hcs => exact absurd (List.cons.inj hcs).1 (hmark _ rfl)
  · next hcs => exact absurd (List.cons.inj hcs).1 (hmark _ rfl)
  · next hcs => exact absurd (List.cons.inj hcs).1 (hmark _ rfl)
  · next hcs => exact absurd (List.cons.inj hcs).1 (hmark _ rfl)
  · next hcs => exact absurd (List.cons.inj hcs).1 (hmark _ rfl)
  · rw [hread]
    rfl

theorem readValue_text (s : String) :
    readValue (fuel + 1) (quoted s ++ rest) = some (str s, rest) := by
  have hread := readText_quoted s rest
  show ((readText (quoted s ++ rest)).bind fun read => some (str read.1, read.2)) = _
  rw [hread]
  rfl

/-- A list that is not empty is its first item and the others. -/
theorem readValue_list {item : Json} {items : List Json} {after tail : List Char}
    (hhead : (skipBlank cs).head? ≠ some ']')
    (hitem : readValue fuel cs = some (item, after))
    (hitems : readItems fuel after = some (items, tail)) :
    readValue (fuel + 1) ('[' :: cs) = some (arr (item :: items), tail) := by
  rw [readValue, skipBlank_head (by decide)]
  split
  case h_5 rest h =>
    obtain ⟨-, rfl⟩ := List.cons.inj h
    split
    · next h => simp [h] at hhead
    · simp [hitem, hitems]
  case h_7 hlist _ => exact absurd rfl (hlist cs)
  all_goals next h => cases (List.cons.inj h).1

theorem readValue_object {entry : String × Json} {members : List (String × Json)}
    {after tail : List Char} (hhead : (skipBlank cs).head? ≠ some '\x7d')
    (hentry : readMember fuel cs = some (entry, after))
    (hmembers : readMembers fuel after = some (members, tail)) :
    readValue (fuel + 1) ('\x7b' :: cs) = some (obj (entry :: members), tail) := by
  rw [readValue, skipBlank_head (by decide)]
  split
  case h_6 rest h =>
    obtain ⟨-, rfl⟩ := List.cons.inj h
    split
    · next h => simp [h] at hhead
    · simp [hentry, hmembers]
  case h_7 hobject => exact absurd rfl (hobject cs)
  all_goals next h => cases (List.cons.inj h).1

/-- The written form of a member. -/
def prettyMember (depth : Nat) (name : String) (value : Json) : List Char :=
  quoted name ++ [':', ' '] ++ prettyAt depth value

/-- The first item of a list is not taken for its end. -/
theorem skipBlank_value (depth : Nat) (j : Json) (rest : List Char) :
    (skipBlank (newline depth ++ (prettyAt depth j ++ rest))).head? ≠ some ']' := by
  obtain ⟨c, more, hvalue, hblank, hmark⟩ := prettyAt_head depth j
  rw [skipBlank_blank (newline_blank depth), hvalue, List.cons_append, skipBlank_head hblank]
  simpa using hmark

/-- Nor is the first member of an object. -/
theorem skipBlank_member (depth : Nat) (name : String) (value : Json) (rest : List Char) :
    skipBlank (newline depth ++ (prettyMember depth name value ++ rest)) =
      quoted name ++ ':' :: ' ' :: (prettyAt depth value ++ rest) := by
  rw [prettyMember, skipBlank_blank (newline_blank depth), quoted]
  simp only [List.cons_append, List.append_assoc, List.nil_append]
  exact skipBlank_head (by decide)

theorem readMember_pretty {value : Json} (name : String)
    (hvalue : readValue fuel (prettyAt depth value ++ rest) = some (value, rest)) :
    readMember (fuel + 1) (newline depth ++ (prettyMember depth name value ++ rest)) =
      some ((name, value), rest) := by
  have hname := readText_quoted name (':' :: ' ' :: (prettyAt depth value ++ rest))
  have hcolon : isBlank ':' = false := rfl
  have hspace : readValue fuel (' ' :: (prettyAt depth value ++ rest)) = some (value, rest) := by
    rw [← List.singleton_append, readValue_blank (List.forall_mem_singleton.mpr rfl), hvalue]
  rw [readMember, skipBlank_member, hname]
  simp [skipBlank_head hcolon, hspace]

theorem endsNumber_cons {c : Char} (h : c.isDigit = false) : EndsNumber (c :: cs) := by
  rintro d ⟨⟩
  exact h

theorem prettyItems_ends (items : List Json) :
    EndsNumber (prettyItems depth items ++ (newline before ++ cs)) := by
  cases items with
  | nil => exact endsNumber_cons rfl
  | cons item items =>
    rw [prettyItems]
    exact endsNumber_cons rfl

theorem prettyMembers_ends (members : List (String × Json)) :
    EndsNumber (prettyMembers depth members ++ (newline before ++ cs)) := by
  cases members with
  | nil => exact endsNumber_cons rfl
  | cons item items =>
    rw [prettyMembers]
    exact endsNumber_cons rfl

mutual

/-- A value is read from its written form, in no more steps than two for each character. -/
theorem readValue_pretty : ∀ (j : Json) (depth fuel : Nat) (rest : List Char),
    2 * (prettyAt depth j).length ≤ fuel → EndsNumber rest →
      readValue fuel (prettyAt depth j ++ rest) = some (j, rest)
  | null, depth, fuel, rest, hfuel, _ => by
    obtain _ | fuel := fuel
    · simp [prettyAt] at hfuel
    · rfl
  | .bool true, depth, fuel, rest, hfuel, _ => by
    obtain _ | fuel := fuel
    · simp [prettyAt] at hfuel
    · rfl
  | .bool false, depth, fuel, rest, hfuel, _ => by
    obtain _ | fuel := fuel
    · simp [prettyAt] at hfuel
    · rfl
  | num n, depth, fuel, rest, hfuel, hrest => by
    obtain _ | fuel := fuel
    · have hlength := Nat.length_toDigits_pos (b := 10) (n := n)
      simp only [prettyAt] at hfuel
      omega
    · exact readValue_number hrest
  | str s, depth, fuel, rest, hfuel, _ => by
    obtain _ | fuel := fuel
    · simp [prettyAt, quoted] at hfuel
    · exact readValue_text s
  | arr [], depth, fuel, rest, hfuel, _ => by
    obtain _ | fuel := fuel
    · simp [prettyAt] at hfuel
    · rfl
  | arr (item :: items), depth, fuel, rest, hfuel, _ => by
    obtain _ | fuel := fuel
    · simp [prettyAt] at hfuel
    · simp only [prettyAt, List.length_cons, List.length_append] at hfuel
      have hitem := readValue_pretty item (depth + 1) fuel
        (prettyItems (depth + 1) items ++ (newline depth ++ ']' :: rest)) (by omega)
        (prettyItems_ends items)
      rw [← readValue_blank (newline_blank (depth + 1))] at hitem
      have hitems := readItems_pretty items (depth + 1) depth fuel rest (by omega)
      have hread := readValue_list (skipBlank_value (depth + 1) item _) hitem hitems
      simpa [prettyAt] using hread
  | obj [], depth, fuel, rest, hfuel, _ => by
    obtain _ | fuel := fuel
    · simp [prettyAt] at hfuel
    · rfl
  | obj ((name, value) :: members), depth, fuel, rest, hfuel, _ => by
    obtain _ | _ | fuel := fuel
    · simp [prettyAt] at hfuel
    · simp [prettyAt] at hfuel
      omega
    · simp only [prettyAt, List.length_cons, List.length_append] at hfuel
      have hvalue := readValue_pretty value (depth + 1) fuel
        (prettyMembers (depth + 1) members ++ (newline depth ++ '\x7d' :: rest)) (by omega)
        (prettyMembers_ends members)
      have hmember := readMember_pretty name hvalue
      have hmembers := readMembers_pretty members (depth + 1) depth (fuel + 1) rest (by omega)
      have hopen : (skipBlank (newline (depth + 1) ++ (prettyMember (depth + 1) name value ++
          (prettyMembers (depth + 1) members ++ (newline depth ++ '\x7d' :: rest))))).head? ≠
            some '\x7d' := by
        rw [skipBlank_member, quoted]
        simp
      have hread := readValue_object hopen hmember hmembers
      simpa [prettyAt, prettyMember] using hread

theorem readItems_pretty : ∀ (items : List Json) (depth before fuel : Nat) (rest : List Char),
    2 * (prettyItems depth items).length < fuel →
      readItems fuel (prettyItems depth items ++ (newline before ++ ']' :: rest)) =
        some (items, rest)
  | [], depth, before, fuel, rest, hfuel => by
    obtain _ | fuel := fuel
    · omega
    · rw [prettyItems, List.nil_append, readItems, skipBlank_blank (newline_blank before),
        skipBlank_head (by decide)]
      rfl
  | item :: items, depth, before, fuel, rest, hfuel => by
    obtain _ | fuel := fuel
    · omega
    · simp only [prettyItems, List.length_cons, List.length_append] at hfuel
      have hitem := readValue_pretty item depth fuel
        (prettyItems depth items ++ (newline before ++ ']' :: rest)) (by omega)
        (prettyItems_ends items)
      have hitems := readItems_pretty items depth before fuel rest (by omega)
      rw [prettyItems, List.cons_append, readItems, skipBlank_head (by decide)]
      simp only [List.append_assoc, readValue_blank (newline_blank depth), hitem]
      simp [hitems]

theorem readMembers_pretty : ∀ (members : List (String × Json)) (depth before fuel : Nat)
    (rest : List Char), 2 * (prettyMembers depth members).length < fuel →
      readMembers fuel (prettyMembers depth members ++ (newline before ++ '\x7d' :: rest)) =
        some (members, rest)
  | [], depth, before, fuel, rest, hfuel => by
    obtain _ | fuel := fuel
    · omega
    · rw [prettyMembers, List.nil_append, readMembers, skipBlank_blank (newline_blank before),
        skipBlank_head (by decide)]
      rfl
  | (name, value) :: members, depth, before, fuel, rest, hfuel => by
    obtain _ | _ | fuel := fuel
    · omega
    · simp [prettyMembers] at hfuel
    · simp only [prettyMembers, List.length_cons, List.length_append] at hfuel
      have hvalue := readValue_pretty value depth fuel
        (prettyMembers depth members ++ (newline before ++ '\x7d' :: rest)) (by omega)
        (prettyMembers_ends members)
      have hmember := readMember_pretty name hvalue
      have hmembers := readMembers_pretty members depth before (fuel + 1) rest (by omega)
      rw [prettyMembers, List.cons_append, readMembers, skipBlank_head (by decide)]
      simp only [List.append_assoc, prettyMember] at hmember ⊢
      simp only [hmember]
      simp [hmembers]

end

/-- A value is read from its text, whatever blanks follow. -/
theorem read?_pretty {j : Json} {blanks : String} (h : ∀ c ∈ blanks.toList, isBlank c) :
    read? (j.pretty ++ blanks) = some j := by
  have hends : EndsNumber blanks.toList := by
    intro c hc
    have hblank := h c (List.mem_of_head? hc)
    simp only [isBlank, Bool.or_eq_true, decide_eq_true_eq] at hblank
    rcases hblank with ((rfl | rfl) | rfl) | rfl <;> rfl
  have hskip : skipBlank blanks.toList = [] := by
    simpa [skipBlank] using h
  have hread := readValue_pretty j 0 (2 * (prettyAt 0 j ++ blanks.toList).length + 1)
    blanks.toList (by simp; omega) hends
  have htext : (j.pretty ++ blanks).toList = prettyAt 0 j ++ blanks.toList := by simp [pretty]
  rw [read?, htext]
  simp only [hread]
  simp [hskip]

end EntitySchema.Json
