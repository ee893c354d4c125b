/-! A place in a YAML text, and what follows it. Lines matter because a key stands on
one line, columns because they say what belongs to what, and bytes because a key has a
limited number of them. -/

namespace EntitySchema.Yaml

/-- A character that may stand in a text at all. -/
def isAllowed (c : Char) : Bool :=
  let n := c.toNat
  c = '\t' || c = '\n' || c = '\r' || (0x20 ≤ n && n ≤ 0x7E) || n = 0x85 ||
    (0xA0 ≤ n && n ≤ 0xFFFD) || 0x10000 ≤ n

/-- Writes every line break in one way, but for the line and the paragraph separator,
which stay what they are. -/
def joinBreaks : List Char → List Char
  | [] => []
  | '\r' :: '\n' :: rest => '\n' :: joinBreaks rest
  | c :: rest => (if c = '\r' || c.toNat = 0x85 then '\n' else c) :: joinBreaks rest

def isBlank (c : Char) : Bool := c = ' ' || c = '\t'

/-- A line break, once all are written in one way. -/
def isBreak (c : Char) : Bool := c = '\n' || c.toNat = 0x2028 || c.toNat = 0x2029

/-- The character that may stand at the beginning of a text to tell the order of its
bytes. -/
def byteOrderMark : Char := Char.ofNat 0xFEFF

/-- Nothing, a blank or a line break follows. -/
def endsWord : List Char → Bool
  | [] => true
  | c :: _ => isBlank c || isBreak c

structure Place where
  line : Nat := 0
  /-- How many characters of the line stand before it. -/
  column : Nat := 0
  /-- How many bytes these characters take in UTF-8. -/
  offset : Nat := 0
  deriving Repr

namespace Place

/-- The place after a character. -/
def after (p : Place) (c : Char) : Place :=
  if isBreak c then { line := p.line + 1 }
  else { p with column := p.column + 1, offset := p.offset + c.utf8Size }

/-- The place some characters on, each of them a byte and none a line break. -/
def skip (p : Place) (n : Nat) : Place :=
  { p with column := p.column + n, offset := p.offset + n }

end Place

/-- A place and what follows it. -/
structure Cursor extends Place where
  rest : List Char
  deriving Repr

namespace Cursor

/-- The cursor some characters on, each of them a byte and none a line break. -/
def skip (p : Cursor) (n : Nat) : Cursor := ⟨p.toPlace.skip n, p.rest.drop n⟩

/-- The line begins with the mark that starts or ends a document. -/
def atMarker (p : Cursor) : Bool :=
  p.column = 0 && match p.rest with
    | '-' :: '-' :: '-' :: rest | '.' :: '.' :: '.' :: rest => endsWord rest
    | _ => false

end Cursor

/-- What follows the end of a line, with blanks and a comment before it. -/
def endLine? (p : Place) (cs : List Char) : Option Cursor :=
  let cs := cs.dropWhile isBlank
  let cs := if cs.head? = some '#' then cs.dropWhile (!isBreak ·) else cs
  match cs with
  | [] => some ⟨p, []⟩
  | c :: rest => if isBreak c then some ⟨p.after c, rest⟩ else none

end EntitySchema.Yaml
