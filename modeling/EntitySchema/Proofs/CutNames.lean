import EntitySchema.Identifier
import Mathlib.Data.List.TakeDrop

/-! Names that are cut to a limit. A cut name keeps the beginning of the name and ends in five
decimal digits, whatever the digest of the name is; it is exactly as long as the limit, so it is
not cut again. Names that are cut to the same name begin alike. -/

namespace EntitySchema

/-! ### Five digits -/

namespace Text.Numeral

variable {c : Char}

theorem lastFive_length (n : Nat) : (lastFive n).length = 5 := rfl

theorem isDigit_of_mem_lastFive {n : Nat} (h : c ∈ lastFive n) : c.isDigit = true := by
  obtain ⟨d, -, rfl⟩ := List.mem_map.mp h
  rw [Nat.isDigit_digitChar, decide_eq_true_iff]
  exact Nat.mod_lt d (by decide)

/-- Zeros in front make up for what is missing. -/
theorem lastFive_value (n : Nat) : Nat.ofDigitChars 10 (lastFive n) 0 = n % 100000 := by
  have hdigit : ∀ d, d % 10 < 10 := fun d => Nat.mod_lt d (by decide)
  simp only [lastFive, List.map_cons, List.map_nil,
    Nat.ofDigitChars_cons_digitChar_of_lt_ten (hdigit _), Nat.ofDigitChars_nil]
  omega

end Text.Numeral

/-! ### Cutting -/

namespace Identifier

variable {name : String} {limit : Nat}

theorem digest_length (name : String) : (digest name).length = digestLength :=
  Text.Numeral.lastFive_length _

theorem mangle_of_short (h : name.length ≤ limit) : mangle name (some limit) = name := by
  unfold mangle
  exact if_neg fun hlong => by
    simp only [Bool.and_eq_true, decide_eq_true_eq] at hlong
    exact Nat.not_lt.mpr h hlong.2

theorem mangle_of_long (hlimit : digestLength < limit) (h : limit < name.length) :
    (mangle name (some limit)).toList =
      name.toList.take (limit - digestLength) ++ digest name := by
  unfold mangle
  dsimp only
  rw [if_pos (by simp [hlimit, h]), String.toList_ofList]

/-- What is left of a name that is too long, before its digest. -/
theorem beginning_length (h : limit < name.length) :
    (name.toList.take (limit - digestLength)).length = limit - digestLength := by
  rw [List.length_take, String.length_toList]
  omega

theorem mangle_length_of_long (hlimit : digestLength < limit) (h : limit < name.length) :
    (mangle name (some limit)).length = limit := by
  rw [← String.length_toList, mangle_of_long hlimit h, List.length_append, beginning_length h,
    digest_length]
  omega

/-- No name is longer than the limit after cutting. -/
theorem mangle_length (hlimit : digestLength < limit) (name : String) :
    (mangle name (some limit)).length ≤ limit := by
  rcases Nat.lt_or_ge limit name.length with hlong | hshort
  · exact Nat.le_of_eq (mangle_length_of_long hlimit hlong)
  · rwa [mangle_of_short hshort]

/-- A name that was cut is not cut again. -/
theorem mangle_mangle (hlimit : digestLength < limit) (name : String) :
    mangle (mangle name (some limit)) (some limit) = mangle name (some limit) :=
  mangle_of_short (mangle_length hlimit name)

/-- Cutting keeps the beginning. -/
theorem mangle_beginning (hlimit : digestLength < limit) (name : String) :
    (mangle name (some limit)).toList.take (limit - digestLength) =
      name.toList.take (limit - digestLength) := by
  rcases Nat.lt_or_ge limit name.length with hlong | hshort
  · rw [mangle_of_long hlimit hlong, List.take_left' (beginning_length hlong)]
  · rw [mangle_of_short hshort]

/-- Under a limit of more than five characters: a name that fits stays as it is; of one that is
too long, the beginning stays and five decimal digits follow it, those of the digest of the name
with zeros in front, so that the result is as long as the limit; the result is not cut
again; and names with the same result have the same beginning. -/
theorem mangle_exact (hlimit : 5 < limit) (name : String) :
    (name.length ≤ limit → mangle name (some limit) = name) ∧
    (limit < name.length → ∃ digits : List Char,
      (mangle name (some limit)).length = limit ∧
      (mangle name (some limit)).toList = name.toList.take (limit - 5) ++ digits ∧
      digits.length = 5 ∧ (∀ c ∈ digits, c.isDigit = true) ∧
      Nat.ofDigitChars 10 digits 0 = Text.Digest.prefix64 name.toUTF8.toList % 100000) ∧
    mangle (mangle name (some limit)) (some limit) = mangle name (some limit) ∧
    ∀ other, mangle other (some limit) = mangle name (some limit) →
      other.toList.take (limit - 5) = name.toList.take (limit - 5) := by
  refine ⟨mangle_of_short, fun hlong => ⟨digest name, mangle_length_of_long hlimit hlong,
    mangle_of_long hlimit hlong, digest_length name,
    fun c => Text.Numeral.isDigit_of_mem_lastFive, Text.Numeral.lastFive_value _⟩,
    mangle_mangle hlimit name, fun other hsame => ?_⟩
  have hother := mangle_beginning hlimit other
  rw [hsame, mangle_beginning hlimit name] at hother
  exact hother.symm

example : mangle "Meßwertübersicht_Mikroskopie_44" (some 30) =
    "Meßwertübersicht_Mikrosko00154" := by
  decide +kernel

/-- Two names that are cut to the same one. -/
theorem measurements_cut : 5 < 30 ∧
    mangle "Meßwertübersicht_Mikroskopie_242" (some 30) = "Meßwertübersicht_Mikrosko17728" ∧
    mangle "Meßwertübersicht_Mikroskopie_293" (some 30) = "Meßwertübersicht_Mikrosko17728" ∧
    mangle "Meßwertübersicht_Mikrosko17728" (some 30) = "Meßwertübersicht_Mikrosko17728" ∧
    (∃ digits : List Char, digits.length = 5 ∧ (∀ c ∈ digits, c.isDigit = true) ∧
      "Meßwertübersicht_Mikrosko17728".toList =
        "Meßwertübersicht_Mikroskopie_242".toList.take 25 ++ digits) ∧
    "Meßwertübersicht_Mikroskopie_293".toList.take 25 =
      "Meßwertübersicht_Mikroskopie_242".toList.take 25 := by
  have hlimit : 5 < 30 := by decide
  have hcut : mangle "Meßwertübersicht_Mikroskopie_242" (some 30) =
      "Meßwertübersicht_Mikrosko17728" := by decide +kernel
  have hother : mangle "Meßwertübersicht_Mikroskopie_293" (some 30) =
      "Meßwertübersicht_Mikrosko17728" := by decide +kernel
  obtain ⟨-, hlong, htwice, halike⟩ := mangle_exact hlimit "Meßwertübersicht_Mikroskopie_242"
  obtain ⟨digits, -, hdigits, hfive, hdecimal, -⟩ := hlong (by decide)
  rw [hcut] at hdigits htwice
  exact ⟨hlimit, hcut, hother, htwice, ⟨digits, hfive, hdecimal, hdigits⟩,
    halike _ (hother.trans hcut.symm)⟩

end Identifier

end EntitySchema
