import EntitySchema.Options.Yaml.Block
import EntitySchema.Options.Yaml.Tag

/-! Tokens of a YAML text. What is written by indentation alone has tokens too: a block
collection begins at the first hyphen or key in a new column and ends where a line
begins before that column. Whether a scalar is a key shows only at the colon after it,
which has to stand on the same line, at most 1024 bytes on; so the place of a possible
key is kept, and its token is put there afterwards. -/

namespace EntitySchema.Yaml

inductive Token where
  | scalar (text : String) (plain : Bool)
  /-- A key follows. -/
  | key
  /-- The value of a key follows. -/
  | value
  /-- An item of a block list follows. -/
  | hyphen
  | openBlockList
  | openBlockMapping
  /-- The end of a block list or a block mapping. -/
  | closeBlock
  | openList
  | closeList
  | openMapping
  | closeMapping
  | comma
  /-- A node with an anchor follows. -/
  | anchor (number : Nat)
  /-- The node with the anchor, once more. -/
  | reference (number : Nat)
  /-- A node with a tag follows. The tag has a name if it begins with an exclamation
  mark. -/
  | tag (name : Option String)
  /-- A line that belongs to the document after it. -/
  | directive
  | documentStart
  | documentEnd
  deriving DecidableEq, Repr

/-- A place where a key may have begun. -/
structure KeyPlace where
  /-- How many tokens stand before it. -/
  number : Nat
  place : Place
  /-- Nothing but a key can stand there. -/
  required : Bool
  deriving Repr

namespace KeyPlace

/-- The key cannot reach as far as this place. -/
def isOver (k : KeyPlace) (p : Place) : Bool :=
  k.place.line < p.line || k.place.offset + 1024 < p.offset

/-- Gives the key up, which is a fault if it is required. -/
def drop? : Option KeyPlace → Option (Option KeyPlace)
  | some k => if k.required then none else some none
  | none => some none

/-- Gives the key up if it cannot reach as far as this place. -/
def update? (p : Place) (k : Option KeyPlace) : Option (Option KeyPlace) :=
  if k.any (·.isOver p) then drop? k else some k

end KeyPlace

/-- The tokens of a text up to a place, and what they leave open there. -/
structure Scan where
  cursor : Cursor
  tokens : Array Token := #[]
  /-- The columns of the block collections, innermost first. -/
  indents : List Nat := []
  /-- A key may begin here. -/
  keyAllowed : Bool := true
  /-- Where a key may have begun, inside the innermost brackets. -/
  key : Option KeyPlace := none
  /-- The same for what is outside of each pair of brackets, innermost first. -/
  outer : List (Option KeyPlace) := []
  /-- The numbers of the anchors. -/
  anchors : List (String × Nat) := []
  /-- The version of the language has been named. -/
  hasVersion : Bool := false
  /-- What directives have set handles to. -/
  handles : List (String × Bytes) := []

namespace Scan

def inFlow (s : Scan) : Bool := !s.outer.isEmpty

def push (s : Scan) (t : Token) : Scan := { s with tokens := s.tokens.push t }

def skip (s : Scan) (n : Nat) : Scan := { s with cursor := s.cursor.skip n }

/-- Closes the block collections that a line which begins in the column is not part
of. -/
def unroll (s : Scan) (column : Nat) : Scan :=
  if s.inFlow then s
  else
    { s with
      tokens := s.tokens ++ (s.indents.takeWhile (column < ·)).map fun _ => Token.closeBlock
      indents := s.indents.dropWhile (column < ·) }

/-- Closes all block collections. -/
def unrollAll (s : Scan) : Scan :=
  { s with
    tokens := s.tokens ++ s.indents.map fun _ => Token.closeBlock
    indents := [] }

/-- Opens a block collection in the column, unless there is one already; its token has
`number` tokens before it. -/
def roll (s : Scan) (column number : Nat) (t : Token) : Scan :=
  if s.inFlow || s.indents.head?.any (column ≤ ·) then s
  else
    { s with
      tokens := s.tokens.insertIdxIfInBounds number t
      indents := column :: s.indents }

/-- Opens a block collection at the place, where a key has to be allowed. Inside
brackets there are none. -/
def rollHere (s : Scan) (t : Token) : Option Scan :=
  if s.inFlow then some s
  else if s.keyAllowed then some (s.roll s.cursor.column s.tokens.size t)
  else none

/-- Gives up the possible key inside the innermost brackets. -/
def dropKey (s : Scan) : Option Scan := do pure { s with key := ← KeyPlace.drop? s.key }

/-- A key may begin at the place, if it is allowed. -/
def saveKey (s : Scan) : Option Scan :=
  if s.keyAllowed then do
    let s ← s.dropKey
    let required := !s.inFlow && s.indents.head? = some s.cursor.column
    pure { s with key := some ⟨s.tokens.size, s.cursor.toPlace, required⟩ }
  else some s

/-! ### Between tokens -/

/-- Skips blanks, comments and line breaks, and tells whether a key may begin after
them. A tab is no blank where a key may begin. A mark of the byte order may begin a
line, and takes up a column. -/
def skipSpace (flow comment keyAllowed : Bool) (p : Place) : List Char → Bool × Cursor
  | [] => (keyAllowed, ⟨p, []⟩)
  | c :: rest =>
    if isBreak c then skipSpace flow false (keyAllowed || !flow) (p.after c) rest
    else if comment || c = ' ' || (c = '\t' && (flow || !keyAllowed)) ||
        (c = byteOrderMark && p.column = 0) then
      skipSpace flow comment keyAllowed (p.after c) rest
    else if c = '#' then skipSpace flow true keyAllowed (p.after c) rest
    else (keyAllowed, ⟨p, c :: rest⟩)

/-- Goes on to the next token. -/
def toNext (s : Scan) : Option Scan := do
  let (keyAllowed, p) := skipSpace s.inFlow false s.keyAllowed s.cursor.toPlace s.cursor.rest
  let key ← KeyPlace.update? p.toPlace s.key
  let outer ← s.outer.mapM (KeyPlace.update? p.toPlace)
  let s := { s with cursor := p, keyAllowed, key, outer }
  pure (s.unroll p.column)

/-! ### Tokens -/

/-- A mark that starts or ends a document. -/
def marker (s : Scan) (t : Token) : Option Scan := do
  let s ← s.unrollAll.dropKey
  pure (({ s with keyAllowed := false }.push t).skip 3)

/-- An opening bracket. -/
def openFlow (s : Scan) (t : Token) : Option Scan := do
  let s ← s.saveKey
  pure (({ s with outer := s.key :: s.outer, key := none, keyAllowed := true }.push t).skip 1)

/-- A closing bracket. -/
def closeFlow (s : Scan) (t : Token) : Option Scan := do
  let s ← s.dropKey
  let s := match s.outer with
    | key :: outer => { s with key, outer }
    | [] => s
  pure (({ s with keyAllowed := false }.push t).skip 1)

def comma (s : Scan) : Option Scan := do
  let s ← s.dropKey
  pure (({ s with keyAllowed := true }.push .comma).skip 1)

def hyphen (s : Scan) : Option Scan := do
  let s ← (← s.rollHere .openBlockList).dropKey
  pure (({ s with keyAllowed := true }.push .hyphen).skip 1)

/-- A question mark, which begins a key. -/
def questionMark (s : Scan) : Option Scan := do
  let s ← (← s.rollHere .openBlockMapping).dropKey
  pure (({ s with keyAllowed := !s.inFlow }.push .key).skip 1)

/-- A colon, which makes a key of what stands before it. -/
def colon (s : Scan) : Option Scan := do
  match s.key with
  | some k =>
    let s := { s with tokens := s.tokens.insertIdxIfInBounds k.number .key }
    let s := s.roll k.place.column k.number .openBlockMapping
    pure (({ s with key := none, keyAllowed := false }.push .value).skip 1)
  | none =>
    let s ← s.rollHere .openBlockMapping
    pure (({ s with keyAllowed := !s.inFlow }.push .value).skip 1)

/-- A scalar in quotes, read by `read` after its opening quote. -/
def quoted (s : Scan) (read : Place → Gap → List Char → Option (List Char × Cursor)) :
    Option Scan := do
  let s ← s.saveKey
  let p := s.cursor.skip 1
  let (cs, after) ← read p.toPlace {} p.rest
  pure ({ s with cursor := after, keyAllowed := false }.push (.scalar (String.ofList cs) false))

/-- A plain scalar. A key may begin after it if its line has ended. -/
def plain (s : Scan) : Option Scan := do
  let s ← s.saveKey
  let indent := match s.indents with
    | column :: _ => column + 1
    | [] => 0
  let p := s.cursor
  let (cs, gap, after) ← readPlain s.inFlow indent p.toPlace {} p.rest
  pure ({ s with cursor := after, keyAllowed := gap.isBroken }.push
    (.scalar (String.ofList cs) true))

/-- A block scalar. -/
def block (s : Scan) (folded : Bool) : Option Scan := do
  let s ← s.dropKey
  let (cs, after) ← readBlock folded s.indents.head? (s.cursor.skip 1)
  pure ({ s with cursor := after, keyAllowed := true }.push (.scalar (String.ofList cs) false))

/-- The token of what comes before a node and takes `length` characters. A key may begin
with it. -/
def beforeNode (s : Scan) (t : Token) (length : Nat) : Option Scan := do
  let s ← s.saveKey
  pure (({ s with keyAllowed := false }.push t).skip length)

/-- Something else follows the name of an anchor. -/
def endsAnchor (after : List Char) : Bool :=
  endsWord after || after.head?.any "?:,]\x7d%@`".toList.contains

/-- An anchor. Its number is how many names of anchors there are before it, so a name that
is used again takes the number that the next new name will have, too. -/
def anchor (s : Scan) (rest : List Char) : Option Scan :=
  let name := String.ofList (rest.takeWhile isNameChar)
  let number := s.anchors.length
  if name ≠ "" && endsAnchor (rest.dropWhile isNameChar) then
    let s := { s with anchors := (name, number) :: s.anchors.filter (·.1 ≠ name) }
    s.beforeNode (.anchor number) (name.length + 1)
  else none

/-- A node with an anchor, once more. -/
def reference (s : Scan) (rest : List Char) : Option Scan := do
  let name := String.ofList (rest.takeWhile isNameChar)
  let number ← s.anchors.lookup name
  if endsAnchor (rest.dropWhile isNameChar) then s.beforeNode (.reference number) (name.length + 1)
  else none

/-- A tag. Inside brackets a comma may follow it at once. -/
def tag (s : Scan) (rest : List Char) : Option Scan := do
  let (tag, after) ← Tag.read? rest
  let bytes ← tag.expand? s.handles
  if endsWord after || (s.inFlow && after.head? = some ',') then
    s.beforeNode (.tag (Tag.name? bytes)) (rest.length + 1 - after.length)
  else none

/-- A directive. Neither the version nor a handle is set twice. -/
def directive (s : Scan) (rest : List Char) : Option Scan := do
  let s ← s.unrollAll.dropKey
  let (directive, after) ← Directive.read? rest
  let cursor ← endLine? s.cursor.toPlace after
  let s := { s with cursor, keyAllowed := false }.push .directive
  match directive with
  | .version => if s.hasVersion then none else pure { s with hasVersion := true }
  | .handle name value =>
    if (s.handles.lookup name).isSome then none
    else pure { s with handles := (name, value) :: s.handles }

/-- Adds the token that begins with this character. -/
def next (s : Scan) (c : Char) (rest : List Char) : Option Scan :=
  if c = '%' && s.cursor.column = 0 then s.directive rest
  else if s.cursor.atMarker then s.marker (if c = '-' then .documentStart else .documentEnd)
  else if c = '[' then s.openFlow .openList
  else if c = '\x7b' then s.openFlow .openMapping
  else if c = ']' then s.closeFlow .closeList
  else if c = '\x7d' then s.closeFlow .closeMapping
  else if c = ',' then s.comma
  else if c = '-' && endsWord rest then s.hyphen
  else if c = '?' && (s.inFlow || endsWord rest) then s.questionMark
  else if c = ':' && (s.inFlow || endsWord rest) then s.colon
  else if c = '*' then s.reference rest
  else if c = '&' then s.anchor rest
  else if c = '!' then s.tag rest
  else if c = '|' && !s.inFlow then s.block false
  else if c = '>' && !s.inFlow then s.block true
  else if c = '\'' then s.quoted readSingle
  else if c = '"' then s.quoted readDouble
  else if startsPlain s.inFlow c rest then s.plain
  else none

/-- The tokens up to the end of the text. Each of them takes a character or more, so
`fuel` is the length of the text. -/
def toEnd : Nat → Scan → Option (List Token)
  | fuel, s => do
    let s ← s.toNext
    match s.cursor.rest, fuel with
    | [], _ => do pure (← s.unrollAll.dropKey).tokens.toList
    | c :: rest, fuel + 1 => toEnd fuel (← s.next c rest)
    | _ :: _, 0 => none

end Scan

/-- The tokens of a text. -/
def Token.ofText? (text : String) : Option (List Token) :=
  if text.toList.all isAllowed then
    let cs := joinBreaks text.toList
    Scan.toEnd cs.length { cursor := { rest := cs } }
  else none

end EntitySchema.Yaml
