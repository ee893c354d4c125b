import EntitySchema.Options.Yaml.Cursor
import EntitySchema.Text.Numeral

/-! Scalars of a YAML text: plain ones and those in quotes. All of them may run over
lines; then blanks around the line breaks are not part of the scalar, one break stands
for a space, and of several all but the first are kept. -/

namespace EntitySchema.Yaml

/-! ### Gaps -/

/-- Blanks and line breaks between two other characters of a scalar. -/
structure Gap where
  /-- The blanks, as long as no line has ended. -/
  blanks : List Char := []
  /-- What ended the first line, and the line breaks after it. -/
  breaks : Option (List Char × List Char) := none

namespace Gap

def isEmpty (g : Gap) : Bool := g.blanks.isEmpty && g.breaks.isNone

/-- A line has ended. -/
def isBroken (g : Gap) : Bool := g.breaks.isSome

def addBlank (g : Gap) (c : Char) : Gap :=
  if g.isBroken then g else { g with blanks := g.blanks ++ [c] }

def addBreak (g : Gap) (c : Char) : Gap :=
  match g.breaks with
  | none => { breaks := some ([c], []) }
  | some (first, more) => { breaks := some (first, more ++ [c]) }

/-- The gap at the beginning of a line, after a break that is not part of the scalar. -/
def atLineStart : Gap := { breaks := some ([], []) }

/-- The gap as it is written, without the blanks around its line breaks. -/
def unfolded (g : Gap) : List Char :=
  match g.breaks with
  | none => g.blanks
  | some (first, more) => first ++ more

/-- What the gap stands for. -/
def text (g : Gap) : List Char :=
  match g.breaks with
  | some (['\n'], []) => [' ']
  | some (['\n'], more) => more
  | _ => g.unfolded

end Gap

/-! ### Plain scalars -/

/-- Characters that begin something else than a plain scalar. -/
def indicators : List Char := "?:,[]{}#&*!|>'\"%@`".toList

/-- Characters that end a plain scalar inside brackets. -/
def flowIndicators : List Char := ",[]{}".toList

/-- A plain scalar begins with this character; `flow` tells whether it stands inside
brackets. -/
def startsPlain (flow : Bool) (c : Char) (rest : List Char) : Bool :=
  if c = '-' || (!flow && (c = '?' || c = ':')) then !endsWord rest
  else !isBlank c && !indicators.contains c

/-- A plain scalar ends before the place, with the gap before it. Outside brackets, its
lines are indented by at least `indent`. -/
def endsPlain (flow : Bool) (indent : Nat) (gap : Gap) (p : Cursor) : Bool :=
  match p.rest with
  | [] => true
  | c :: rest =>
    (!gap.isEmpty && ((!flow && p.column < indent) || p.atMarker || c = '#')) ||
      (c = ':' && endsWord rest) || (flow && flowIndicators.contains c)

/-- A colon inside brackets that neither ends a scalar nor can be part of it. -/
def isStrayColon (c : Char) (rest : List Char) : Bool :=
  c = ':' && match rest with
    | [] => false
    | d :: _ => d = '?' || flowIndicators.contains d

/-- What is left of a plain scalar from a place on: its characters, the gap after it,
and the place after the gap. -/
def readPlain (flow : Bool) (indent : Nat) (p : Place) (gap : Gap) :
    List Char → Option (List Char × Gap × Cursor)
  | [] => some ([], gap, ⟨p, []⟩)
  | c :: rest =>
    if isBreak c then readPlain flow indent (p.after c) (gap.addBreak c) rest
    else if isBlank c then
      if c = '\t' && gap.isBroken && p.column < indent then none
      else readPlain flow indent (p.after c) (gap.addBlank c) rest
    else if endsPlain flow indent gap ⟨p, c :: rest⟩ then
      some ([], gap, ⟨p, c :: rest⟩)
    else if flow && isStrayColon c rest then none
    else do
      let (cs, after) ← readPlain flow indent (p.after c) {} rest
      pure (gap.text ++ c :: cs, after)

/-! ### Quoted scalars -/

/-- What is left of a scalar in single quotes from a place on, and the place after it.
A quote inside is written twice. -/
def readSingle (p : Place) (gap : Gap) : List Char → Option (List Char × Cursor)
  | [] => none
  | '\'' :: '\'' :: rest => do
    let (cs, after) ← readSingle (p.skip 2) {} rest
    pure (gap.text ++ '\'' :: cs, after)
  | '\'' :: rest => some (gap.text, ⟨p.skip 1, rest⟩)
  | c :: rest =>
    if isBreak c then readSingle (p.after c) (gap.addBreak c) rest
    else if isBlank c then readSingle (p.after c) (gap.addBlank c) rest
    else if Cursor.atMarker ⟨p, c :: rest⟩ then none
    else do
      let (cs, after) ← readSingle (p.after c) {} rest
      pure (gap.text ++ c :: cs, after)

/-- The character of an escape with one letter. -/
def unescape? (c : Char) : Option Char :=
  [('0', 0), ('a', 7), ('b', 8), ('t', 9), ('\t', 9), ('n', 10), ('v', 11), ('f', 12), ('r', 13),
    ('e', 27), (' ', 32), ('"', 34), ('/', 47), ('\\', 92), ('N', 0x85), ('_', 0xA0),
    ('L', 0x2028), ('P', 0x2029)].lookup c |>.map Char.ofNat

/-- What is left of a scalar in double quotes from a place on, and the place after it. -/
def readDouble (p : Place) (gap : Gap) : List Char → Option (List Char × Cursor)
  | [] => none
  | '"' :: rest => some (gap.text, ⟨p.skip 1, rest⟩)
  | '\\' :: 'x' :: a :: b :: rest => do
    let d ← Text.Numeral.hexChar? [a, b]
    let (cs, after) ← readDouble (p.skip 4) {} rest
    pure (gap.text ++ d :: cs, after)
  | '\\' :: 'u' :: a :: b :: c :: d :: rest => do
    let e ← Text.Numeral.hexChar? [a, b, c, d]
    let (cs, after) ← readDouble (p.skip 6) {} rest
    pure (gap.text ++ e :: cs, after)
  | '\\' :: 'U' :: a :: b :: c :: d :: e :: f :: g :: h :: rest => do
    let i ← Text.Numeral.hexChar? [a, b, c, d, e, f, g, h]
    let (cs, after) ← readDouble (p.skip 10) {} rest
    pure (gap.text ++ i :: cs, after)
  | '\\' :: c :: rest =>
    if isBreak c then do
      let (cs, after) ← readDouble (p.after c) .atLineStart rest
      pure (gap.text ++ cs, after)
    else do
      let d ← unescape? c
      let (cs, after) ← readDouble (p.skip 2) {} rest
      pure (gap.text ++ d :: cs, after)
  | c :: rest =>
    if isBreak c then readDouble (p.after c) (gap.addBreak c) rest
    else if isBlank c then readDouble (p.after c) (gap.addBlank c) rest
    else if c = '\\' || Cursor.atMarker ⟨p, c :: rest⟩ then none
    else do
      let (cs, after) ← readDouble (p.after c) {} rest
      pure (gap.text ++ c :: cs, after)

end EntitySchema.Yaml
