import EntitySchema.Text.Numeral

/-! What stands between the values of a TOML text, and its strings: blanks, comments,
line ends, and the four kinds of quotes. A string in one quote ends on its line; one
in three quotes may run over lines, and a break right after the opening quotes is not
part of it. -/

namespace EntitySchema.Toml

/-! ### Blanks, comments and lines -/

def skipBlanks (cs : List Char) : List Char := cs.dropWhile fun c => c = ' ' || c = '\t'

/-- A character that may stand in no comment and in no string. -/
def isControl (c : Char) : Bool := (c.toNat < 0x20 && c ≠ '\t') || c.toNat = 0x7F

/-- What follows a line break, if the text starts with one. -/
def afterBreak? : List Char → Option (List Char)
  | '\n' :: rest => some rest
  | '\r' :: '\n' :: rest => some rest
  | _ => none

/-- What follows a comment, or the text itself if it starts with none. -/
def skipComment : List Char → List Char
  | '#' :: rest => rest.dropWhile fun c => !isControl c
  | cs => cs

/-- What follows the end of a line, with blanks and a comment before it. -/
def endLine? (cs : List Char) : Option (List Char) :=
  match skipComment (skipBlanks cs) with
  | [] => some []
  | cs => afterBreak? cs

/-- What follows any blanks, comments and line breaks. -/
def skipLines : Nat → List Char → List Char
  | 0, cs => cs
  | fuel + 1, cs =>
    let cs := skipComment (skipBlanks cs)
    match afterBreak? cs with
    | some rest => skipLines fuel rest
    | none => cs

/-! ### Strings on one line -/

/-- The character of an escape with one letter. -/
def unescape? (c : Char) : Option Char :=
  if c = '"' || c = '\\' then some c
  else if c = 'b' then some (Char.ofNat 8)
  else if c = 't' then some '\t'
  else if c = 'n' then some '\n'
  else if c = 'f' then some (Char.ofNat 12)
  else if c = 'r' then some '\r'
  else none

/-- The characters of a string in double quotes, and what follows it. -/
def readBasic : List Char → Option (List Char × List Char)
  | [] => none
  | '"' :: rest => some ([], rest)
  | '\\' :: 'u' :: a :: b :: c :: d :: rest => do
    let e ← Text.Numeral.hexChar? [a, b, c, d]
    let (cs, after) ← readBasic rest
    pure (e :: cs, after)
  | '\\' :: 'U' :: a :: b :: c :: d :: e :: f :: g :: h :: rest => do
    let i ← Text.Numeral.hexChar? [a, b, c, d, e, f, g, h]
    let (cs, after) ← readBasic rest
    pure (i :: cs, after)
  | '\\' :: c :: rest => do
    let d ← unescape? c
    let (cs, after) ← readBasic rest
    pure (d :: cs, after)
  | c :: rest =>
    if c = '\\' || isControl c then none
    else do
      let (cs, after) ← readBasic rest
      pure (c :: cs, after)

/-- The characters of a string in single quotes, and what follows it. -/
def readLiteral : List Char → Option (List Char × List Char)
  | [] => none
  | c :: rest =>
    if c = '\'' then some ([], rest)
    else if isControl c then none
    else do
      let (cs, after) ← readLiteral rest
      pure (c :: cs, after)

/-! ### Strings over several lines -/

/-- How a string in three double quotes goes on: as it is written, or after a
backslash that ends a line, where blanks and line breaks are dropped. -/
inductive Joining where
  | none
  /-- The line has not ended yet. -/
  | line
  | lines
  deriving DecidableEq, Repr

/-- The characters of a string in three double quotes, and what follows it. Up to two
quotes may stand right before the closing ones. -/
def readBasicLines : Joining → List Char → Option (List Char × List Char)
  | _, [] => none
  | .line, c :: rest =>
    if c = '\n' then readBasicLines .lines rest
    else if c = ' ' || c = '\t' || (c = '\r' && rest.head? = some '\n') then
      readBasicLines .line rest
    else none
  | .none, '"' :: '"' :: '"' :: '"' :: '"' :: rest
  | .lines, '"' :: '"' :: '"' :: '"' :: '"' :: rest => some (['"', '"'], rest)
  | .none, '"' :: '"' :: '"' :: '"' :: rest
  | .lines, '"' :: '"' :: '"' :: '"' :: rest => some (['"'], rest)
  | .none, '"' :: '"' :: '"' :: rest
  | .lines, '"' :: '"' :: '"' :: rest => some ([], rest)
  | _, '\\' :: 'u' :: a :: b :: c :: d :: rest => do
    let e ← Text.Numeral.hexChar? [a, b, c, d]
    let (cs, after) ← readBasicLines .none rest
    pure (e :: cs, after)
  | _, '\\' :: 'U' :: a :: b :: c :: d :: e :: f :: g :: h :: rest => do
    let i ← Text.Numeral.hexChar? [a, b, c, d, e, f, g, h]
    let (cs, after) ← readBasicLines .none rest
    pure (i :: cs, after)
  | _, '\\' :: c :: rest =>
    match unescape? c with
    | some d => do
      let (cs, after) ← readBasicLines .none rest
      pure (d :: cs, after)
    | none => readBasicLines .line (c :: rest)
  | joining, c :: rest =>
    if joining = .lines && (c = ' ' || c = '\t' || c = '\n') then readBasicLines .lines rest
    else if c = '\r' && rest.head? = some '\n' then readBasicLines joining rest
    else if c = '\\' || (isControl c && c ≠ '\n') then none
    else do
      let (cs, after) ← readBasicLines .none rest
      pure (c :: cs, after)

/-- The characters of a string in three single quotes, and what follows it. -/
def readLiteralLines : List Char → Option (List Char × List Char)
  | [] => none
  | '\'' :: '\'' :: '\'' :: '\'' :: '\'' :: rest => some (['\'', '\''], rest)
  | '\'' :: '\'' :: '\'' :: '\'' :: rest => some (['\''], rest)
  | '\'' :: '\'' :: '\'' :: rest => some ([], rest)
  | c :: rest =>
    if c = '\r' && rest.head? = some '\n' then readLiteralLines rest
    else if isControl c && c ≠ '\n' then none
    else do
      let (cs, after) ← readLiteralLines rest
      pure (c :: cs, after)

/-! ### Strings -/

/-- A string on one line. -/
def readLine : List Char → Option (List Char × List Char)
  | '"' :: rest => readBasic rest
  | '\'' :: rest => readLiteral rest
  | _ => none

/-- A string in any quotes. -/
def readString : List Char → Option (List Char × List Char)
  | '"' :: '"' :: '"' :: rest => readBasicLines .none ((afterBreak? rest).getD rest)
  | '\'' :: '\'' :: '\'' :: rest => readLiteralLines ((afterBreak? rest).getD rest)
  | cs => readLine cs

end EntitySchema.Toml
