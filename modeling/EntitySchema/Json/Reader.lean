import EntitySchema.Json
import EntitySchema.Text.Numeral

/-! Reading JSON. `Json.read?` takes any layout and every escape, with pairs of
surrogates for characters beyond the first plane; numbers are the natural ones,
without sign, fraction or exponent. Reading what the printer wrote gives the
value back. -/

namespace EntitySchema.Json

open Text.Numeral (hex?)

def isBlank (c : Char) : Bool := c = ' ' || c = '\t' || c = '\n' || c = '\r'

def skipBlank (cs : List Char) : List Char := cs.dropWhile isBlank

/-- The character of an escape with one letter. -/
def unescape? (c : Char) : Option Char :=
  if c = '"' || c = '\\' || c = '/' then some c
  else if c = 'n' then some '\n'
  else if c = 'r' then some '\r'
  else if c = 't' then some '\t'
  else if c = 'b' then some (Char.ofNat 8)
  else if c = 'f' then some (Char.ofNat 12)
  else none

/-- The first of two surrogates. -/
def isHigh (n : Nat) : Bool := 0xD800 ≤ n && n < 0xDC00

/-- The second of two surrogates. -/
def isLow (n : Nat) : Bool := 0xDC00 ≤ n && n < 0xE000

/-- The characters up to the closing quote, and what follows it. -/
def readChars : List Char → Option (List Char × List Char)
  | [] => none
  | '"' :: rest => some ([], rest)
  | '\\' :: 'u' :: a :: b :: c :: d :: '\\' :: 'u' :: e :: f :: g :: h :: rest => do
    let first ← hex? 0 [a, b, c, d]
    if isHigh first then
      let second ← hex? 0 [e, f, g, h]
      if isLow second then
        let (cs, after) ← readChars rest
        pure (Char.ofNat (0x10000 + (first - 0xD800) * 0x400 + (second - 0xDC00)) :: cs, after)
      else none
    else if isLow first then none
    else
      let (cs, after) ← readChars ('\\' :: 'u' :: e :: f :: g :: h :: rest)
      pure (Char.ofNat first :: cs, after)
  | '\\' :: 'u' :: a :: b :: c :: d :: rest => do
    let n ← hex? 0 [a, b, c, d]
    if isHigh n || isLow n then none
    else
      let (cs, after) ← readChars rest
      pure (Char.ofNat n :: cs, after)
  | '\\' :: c :: rest => do
    let d ← unescape? c
    let (cs, after) ← readChars rest
    pure (d :: cs, after)
  | c :: rest =>
    if c = '\\' || c.toNat < 0x20 then none
    else do
      let (cs, after) ← readChars rest
      pure (c :: cs, after)

/-- A text in quotes. -/
def readText : List Char → Option (String × List Char)
  | '"' :: rest => do
    let (cs, after) ← readChars rest
    pure (String.ofList cs, after)
  | _ => none

/-- A natural number without leading zeros. -/
def readNumber (cs : List Char) : Option (Nat × List Char) :=
  match cs.takeWhile Char.isDigit with
  | [] => none
  | '0' :: _ :: _ => none
  | ds => some (Nat.ofDigitChars 10 ds 0, cs.dropWhile Char.isDigit)

mutual

/-- A value at the start of the text, and what follows it. -/
def readValue : Nat → List Char → Option (Json × List Char)
  | 0, _ => none
  | fuel + 1, cs =>
    match skipBlank cs with
    | 'n' :: 'u' :: 'l' :: 'l' :: rest => some (null, rest)
    | 't' :: 'r' :: 'u' :: 'e' :: rest => some (bool true, rest)
    | 'f' :: 'a' :: 'l' :: 's' :: 'e' :: rest => some (bool false, rest)
    | '"' :: rest => do
      let (s, after) ← readText ('"' :: rest)
      pure (str s, after)
    | '[' :: rest =>
      match skipBlank rest with
      | ']' :: after => some (arr [], after)
      | _ => do
        let (item, after) ← readValue fuel rest
        let (items, after) ← readItems fuel after
        pure (arr (item :: items), after)
    | '\x7b' :: rest =>
      match skipBlank rest with
      | '\x7d' :: after => some (obj [], after)
      | _ => do
        let (entry, after) ← readMember fuel rest
        let (members, after) ← readMembers fuel after
        pure (obj (entry :: members), after)
    | cs => do
      let (n, after) ← readNumber cs
      pure (num n, after)

/-- Further items of a list, up to its end. -/
def readItems : Nat → List Char → Option (List Json × List Char)
  | 0, _ => none
  | fuel + 1, cs =>
    match skipBlank cs with
    | ']' :: after => some ([], after)
    | ',' :: rest => do
      let (item, after) ← readValue fuel rest
      let (items, after) ← readItems fuel after
      pure (item :: items, after)
    | _ => none

/-- One member of an object. -/
def readMember : Nat → List Char → Option ((String × Json) × List Char)
  | 0, _ => none
  | fuel + 1, cs => do
    let (name, after) ← readText (skipBlank cs)
    match skipBlank after with
    | ':' :: rest => do
      let (value, after) ← readValue fuel rest
      pure ((name, value), after)
    | _ => none

/-- Further members of an object, up to its end. -/
def readMembers : Nat → List Char → Option (List (String × Json) × List Char)
  | 0, _ => none
  | fuel + 1, cs =>
    match skipBlank cs with
    | '\x7d' :: after => some ([], after)
    | ',' :: rest => do
      let (entry, after) ← readMember fuel rest
      let (members, after) ← readMembers fuel after
      pure (entry :: members, after)
    | _ => none

end

/-- The value that a text writes, with nothing but blanks around it. -/
def read? (text : String) : Option Json := do
  let cs := text.toList
  let (value, after) ← readValue (2 * cs.length + 1) cs
  if skipBlank after = [] then pure value else none

end EntitySchema.Json
