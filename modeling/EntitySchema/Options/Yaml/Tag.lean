import EntitySchema.Options.Yaml.Cursor
import EntitySchema.Text.Numeral

/-! Tags of a YAML text, and the directives before its document. A tag is written with a
handle, which stands for how it begins, or in full between angle brackets. It is a
sequence of bytes, of which some may be written as two digits after a percent sign. -/

namespace EntitySchema.Yaml

abbrev Bytes := List UInt8

/-- A character of a handle or of the name of an anchor. -/
def isNameChar (c : Char) : Bool := c.isAlphanum || c = '_' || c = '-'

/-- Other characters of a tag. -/
def tagMarks : List Char := ";/?:@&=+$.%!~*'()".toList

/-- A character of a tag; some belong only to one that is written in full. -/
def isTagChar (full : Bool) (c : Char) : Bool :=
  isNameChar c || tagMarks.contains c || (full && [',', '[', ']'].contains c)

/-! ### Bytes -/

/-- How many bytes of a character are still to come after its first one. -/
def bytesAfter? (first : Nat) : Option Nat :=
  if first < 0x80 then some 0
  else if first < 0xC0 then none
  else if first < 0xE0 then some 1
  else if first < 0xF0 then some 2
  else if first < 0xF8 then some 3
  else none

/-- The bytes that the characters of a tag stand for, where `due` bytes of a character
are still to come. -/
def bytes? (due : Nat) : List Char → Option Bytes
  | [] => if due = 0 then some [] else none
  | '%' :: a :: b :: rest => do
    let byte := 16 * (← Text.Numeral.hexValue? a) + (← Text.Numeral.hexValue? b)
    let due ← if due = 0 then bytesAfter? byte
      else if 0x80 ≤ byte && byte < 0xC0 then some (due - 1)
      else none
    pure (byte.toUInt8 :: (← bytes? due rest))
  | c :: rest =>
    if due = 0 && c ≠ '%' then do pure (c.toNat.toUInt8 :: (← bytes? 0 rest)) else none

/-- The bytes of some characters of a tag. A byte that is zero ends them. -/
def tagBytes? (cs : List Char) : Option Bytes := do pure ((← bytes? 0 cs).takeWhile (· ≠ 0))

/-- The bytes of at least one character of a tag, and what follows. -/
def readTagBytes (full : Bool) (cs : List Char) : Option (Bytes × List Char) :=
  match cs.takeWhile (isTagChar full) with
  | [] => none
  | word => do pure (← tagBytes? word, cs.dropWhile (isTagChar full))

/-! ### Tags -/

/-- A tag as it is written. -/
structure Tag where
  /-- No handle stands before a tag that is written in full. -/
  handle : Option String
  suffix : Bytes
  deriving DecidableEq, Repr

namespace Tag

/-- A handle with a name, or with none between its exclamation marks. -/
def handleOf (name : List Char) : String := String.ofList ('!' :: name ++ ['!'])

/-- The tag after an exclamation mark, and what follows it. The mark alone is a tag in
full. -/
def read? : List Char → Option (Tag × List Char)
  | '<' :: rest => do
    let (suffix, after) ← readTagBytes true rest
    match after with
    | '>' :: after => pure (⟨none, suffix⟩, after)
    | _ => none
  | rest =>
    match rest.dropWhile isNameChar with
    | '!' :: after => do
      let (suffix, after) ← readTagBytes false after
      pure (⟨some (handleOf (rest.takeWhile isNameChar)), suffix⟩, after)
    | _ => do
      let suffix ← tagBytes? (rest.takeWhile (isTagChar false))
      let after := rest.dropWhile (isTagChar false)
      if suffix = [] then pure (⟨none, ['!'.toUInt8]⟩, after) else pure (⟨some "!", suffix⟩, after)

/-- What the handles stand for that no directive sets. -/
def defaultHandles : List (String × Bytes) :=
  [("!", ['!'.toUInt8]), ("!!", "tag:yaml.org,2002:".toList.map Char.toUInt8)]

/-- The tag in full, where directives have set handles. -/
def expand? (handles : List (String × Bytes)) (tag : Tag) : Option Bytes :=
  match tag.handle with
  | none => some tag.suffix
  | some handle => do pure ((← (handles ++ defaultHandles).lookup handle) ++ tag.suffix)

/-- The name after the exclamation mark that a tag begins with. -/
def name? : Bytes → Option String
  | mark :: byte :: rest =>
    if mark = '!'.toUInt8 then String.fromUTF8? ⟨(byte :: rest).toArray⟩ else none
  | _ => none

end Tag

/-! ### Directives -/

/-- A line before a document. -/
inductive Directive where
  /-- The version of the language is one that can be read. -/
  | version
  /-- A handle, and what it stands for. -/
  | handle (name : String) (value : Bytes)
  deriving DecidableEq, Repr

namespace Directive

/-- A number of at most nine digits, and what follows it. -/
def readNumber (cs : List Char) : Option (Nat × List Char) :=
  match cs.takeWhile Char.isDigit with
  | [] => none
  | digits =>
    if digits.length ≤ 9 then some (Nat.ofDigitChars 10 digits 0, cs.dropWhile Char.isDigit)
    else none

/-- The number of a version, 1.1 or 1.2, and what follows it. -/
def readVersion (cs : List Char) : Option (Directive × List Char) := do
  let (major, cs) ← readNumber cs
  match cs with
  | '.' :: cs => do
    let (minor, cs) ← readNumber cs
    if major = 1 && (minor = 1 || minor = 2) then pure (version, cs) else none
  | _ => none

/-- A handle and what it stands for, with blanks between them, and what follows. -/
def readHandle : List Char → Option (Directive × List Char)
  | '!' :: rest => do
    let word := rest.takeWhile isNameChar
    let (name, after) ← match rest.dropWhile isNameChar with
      | '!' :: after => some (Tag.handleOf word, after)
      | after => if word = [] then some ("!", after) else none
    if after.head?.any isBlank then do
      let (value, after) ← readTagBytes true (after.dropWhile isBlank)
      if endsWord after then pure (handle name value, after) else none
    else none
  | _ => none

/-- The directive after a percent sign, and what follows it. -/
def read? (cs : List Char) : Option (Directive × List Char) :=
  let after := cs.dropWhile isNameChar
  let name := String.ofList (cs.takeWhile isNameChar)
  if !endsWord after then none
  else if name = "YAML" then readVersion (after.dropWhile isBlank)
  else if name = "TAG" then readHandle (after.dropWhile isBlank)
  else none

end Directive

end EntitySchema.Yaml
