import EntitySchema.Text.Casing.Table

/-! Letter case. `lower` and `upperFirst` follow the full case mappings of
Unicode, where one character may become several and a capital sigma at the end
of a word has a form of its own. `sameIgnoringCase` compares names and folds
ASCII letters only. -/

namespace EntitySchema.Text

namespace Casing

/-- The image of a code point under the first run that moves it. -/
def shifted? (runs : List (Nat × Nat × Nat × Int)) (n : Nat) : Option Nat :=
  runs.findSome? fun (first, last, step, shift) =>
    if first ≤ n && n ≤ last && (n - first) % step == 0 then some (Int.toNat (n + shift)) else none

/-- A code point lies in one of the ranges. -/
def within (ranges : List (Nat × Nat)) (c : Char) : Bool :=
  ranges.any fun (first, last) => first ≤ c.toNat && c.toNat ≤ last

/-- Lower case of one character, wherever it stands. -/
def lowerChar (c : Char) : List Char :=
  if c.toNat < 0x80 then [c.toLower]
  else if c.toNat == 0x130 then ['i', Char.ofNat 0x307]
  else match shifted? lowerRuns c.toNat with
    | some n => [Char.ofNat n]
    | none => [c]

/-- Upper case of one character, which may be up to three characters. -/
def upperChar (c : Char) : List Char :=
  if c.toNat < 0x80 then [c.toUpper]
  else match upperExpansions.lookup c.toNat with
    | some ns => ns.map Char.ofNat
    | none => match shifted? upperRuns c.toNat with
      | some n => [Char.ofNat n]
      | none => [c]

/-- The first character that a word does not look through is a letter with case. -/
def startsCased (cs : List Char) : Bool :=
  match cs.dropWhile (within ignorableRanges) with
  | c :: _ => within casedRanges c
  | [] => false

/-- Lower case of a text, given the characters before it, nearest first. -/
def lowerAfter : List Char → List Char → List Char
  | _, [] => []
  | before, c :: rest =>
    if c.toNat == 0x3A3 then
      (if startsCased before && !startsCased rest then Char.ofNat 0x3C2 else Char.ofNat 0x3C3)
        :: lowerAfter (c :: before) rest
    else lowerChar c ++ lowerAfter (c :: before) rest

end Casing

/-- Lower case of a text. -/
def lower (s : String) : String := String.ofList (Casing.lowerAfter [] s.toList)

/-- Upper case of a text. -/
def upper (s : String) : String := String.ofList (s.toList.flatMap Casing.upperChar)

/-- The text with its first character in upper case. -/
def upperFirst (s : String) : String :=
  match s.toList with
  | [] => ""
  | c :: rest => String.ofList (Casing.upperChar c ++ rest)

/-- The text with its ASCII letters in lower case. -/
def foldAscii (s : String) : String := String.ofList (s.toList.map Char.toLower)

/-- The texts differ at most in the case of ASCII letters. -/
def sameIgnoringCase (a b : String) : Bool := foldAscii a == foldAscii b

end EntitySchema.Text
