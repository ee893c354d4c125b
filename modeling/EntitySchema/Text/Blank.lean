/-! White space. `isSpace` is the `White_Space` property of Unicode, `trim` cuts
it from both ends of a text, and a text is blank when nothing else is in it. -/

namespace EntitySchema.Text

/-- The `White_Space` property of Unicode: 25 characters. The zero-width space
U+200B, U+180E and the byte order mark do not have it. -/
def isSpace (c : Char) : Bool :=
  (9 ≤ c.toNat && c.toNat ≤ 13) || c.toNat == 0x20 || c.toNat == 0x85 || c.toNat == 0xA0 ||
  c.toNat == 0x1680 || (0x2000 ≤ c.toNat && c.toNat ≤ 0x200A) || c.toNat == 0x2028 ||
  c.toNat == 0x2029 || c.toNat == 0x202F || c.toNat == 0x205F || c.toNat == 0x3000

/-- The characters without the longest runs of `p` at either end. -/
def strip (p : Char → Bool) (cs : List Char) : List Char :=
  ((cs.dropWhile p).reverse.dropWhile p).reverse

/-- The text without the white space at either end. -/
def trim (s : String) : String := String.ofList (strip isSpace s.toList)

/-- Nothing but white space, or nothing at all. -/
def isBlank (s : String) : Bool := s.toList.all isSpace

/-- White space anywhere in the text. -/
def hasSpace (s : String) : Bool := s.toList.any isSpace

/-- The text, unless it is empty. -/
def nonEmpty? (s : String) : Option String := if s = "" then none else some s

end EntitySchema.Text
