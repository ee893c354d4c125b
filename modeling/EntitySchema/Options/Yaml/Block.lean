import EntitySchema.Options.Yaml.Scalar

/-! Block scalars of a YAML text: the lines after a bar or an angle bracket that are
indented further than what they belong to. A bar keeps the line breaks. An angle bracket
folds them as in other scalars, except beside lines that begin with a blank. -/

namespace EntitySchema.Yaml

/-- What becomes of the line breaks at the end. -/
inductive Chomping where
  /-- None of them is kept. -/
  | strip
  /-- The first of them is kept. -/
  | clip
  | keep
  deriving DecidableEq, Repr

namespace Chomping

/-- The chomping that the characters before a line end ask for, and what follows. -/
def read? : List Char → Option Chomping × List Char
  | '+' :: rest => (some keep, rest)
  | '-' :: rest => (some strip, rest)
  | rest => (none, rest)

/-- What is kept of the line breaks at the end. -/
def text (chomping : Chomping) (gap : Gap) : List Char :=
  match chomping, gap.breaks with
  | clip, some (first, _) => first
  | keep, some (first, more) => first ++ more
  | _, _ => []

end Chomping

/-- The digit that tells how much further the lines are indented, and what follows. -/
def readIndent : List Char → Option Nat × List Char
  | [] => (none, [])
  | c :: rest => if c.isDigit then (some (c.toNat - '0'.toNat), rest) else (none, c :: rest)

/-- The head of a block scalar, with its line end: the chomping and the digit, in either
order. The digit is not zero. -/
def readHead (p : Place) (cs : List Char) : Option (Chomping × Option Nat × Cursor) := do
  let (before, cs) := Chomping.read? cs
  let (indent, cs) := readIndent cs
  let (chomping, cs) := if before.isSome then (before, cs) else Chomping.read? cs
  if indent = some 0 then none
  else pure (chomping.getD .clip, indent, ← endLine? p cs)

/-- The indentation that the first line with text shows, or a longer one of the lines
before it. Tabs are not part of an indentation. -/
def shownIndent (widest column : Nat) : List Char → Option Nat
  | [] => some (max widest column)
  | c :: rest =>
    if c = ' ' then shownIndent widest (column + 1) rest
    else if isBreak c then shownIndent (max widest column) 0 rest
    else if c = '\t' then none
    else some (max widest column)

/-- What is left of a block scalar from a place on: its characters, the gap after them,
and the place after the gap. `blank` tells whether the last line began with a blank. -/
def readLines (folded : Bool) (indent : Nat) (p : Place) (blank : Bool) (gap : Gap) :
    List Char → Option (List Char × Gap × Cursor)
  | [] => some ([], gap, ⟨p, []⟩)
  | c :: rest =>
    if isBreak c then readLines folded indent (p.after c) blank (gap.addBreak c) rest
    else if p.column < indent then
      if c = ' ' then readLines folded indent (p.after c) blank gap rest
      else if c = '\t' then none
      else some ([], gap, ⟨p, c :: rest⟩)
    else do
      let begins := p.column = indent
      let lead := if folded && !blank && !isBlank c then gap.text else gap.unfolded
      let blank := if begins then isBlank c else blank
      let (cs, after) ← readLines folded indent (p.after c) blank {} rest
      pure (lead ++ c :: cs, after)

/-- A block scalar after its first character, and the place after it. `column` is that of
the block collection which it is part of, if there is one. -/
def readBlock (folded : Bool) (column : Option Nat) (p : Cursor) :
    Option (List Char × Cursor) := do
  let (chomping, further, start) ← readHead p.toPlace p.rest
  let indent ← match further with
    | some n => some (column.getD 0 + n)
    | none => do pure (max (← shownIndent 0 0 start.rest) ((column.map (· + 1)).getD 1))
  let (cs, gap, after) ← readLines folded indent start.toPlace false .atLineStart start.rest
  pure (cs ++ chomping.text gap, after)

end EntitySchema.Yaml
