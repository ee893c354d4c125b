import EntitySchema.Text.Numeral
import EntitySchema.Xml.Fault

/-! References in text and in attribute values. `expand` replaces the five named
references and the numbered ones by the characters they stand for, and every
other character by itself. -/

namespace EntitySchema.Xml

/-- How many bytes the characters take in UTF-8. -/
def byteLength : List Char → Nat
  | [] => 0
  | c :: rest => c.utf8Size + byteLength rest

namespace Reference

/-- The characters with a name. -/
def named? : String → Option Char
  | "lt" => some '<'
  | "gt" => some '>'
  | "amp" => some '&'
  | "apos" => some '\''
  | "quot" => some '"'
  | _ => none

def digitValue? (radix : Nat) (c : Char) : Option Nat :=
  (Text.Numeral.hexValue? c).filter (· < radix)

/-- The number that digits write after `acc`. Of a digit that is none and a
number beyond 32 bits the one further left is reported. -/
def number (radix : Nat) (acc : Nat) : List Char → Except ReferenceFault Nat
  | [] => .ok acc
  | c :: rest =>
    match digitValue? radix c with
    | none => .error .badDigit
    | some d =>
      if acc * radix + d ≤ Text.Numeral.max32 then number radix (acc * radix + d) rest
      else .error .numberTooLarge

/-- The character of a numbered reference, given what follows its number sign. -/
def numbered (cs : List Char) : Except ReferenceFault Char := do
  let (radix, digits) := match cs with
    | 'x' :: rest => (16, rest)
    | _ => (10, cs)
  match digits with
  | [] => .error .missingNumber
  | '+' :: _ | '-' :: _ => .error .signedNumber
  | _ =>
    let n ← number radix 0 digits
    if n = 0 then .error .zero
    else if n.isValidChar then .ok (Char.ofNat n)
    else .error (.noCharacter n)

/-- The character of a reference, given what stands between the ampersand and
the semicolon, and where. -/
def resolve (first last : Nat) (body : List Char) : Except ReferenceFault Char :=
  match body with
  | '#' :: digits => numbered digits
  | _ => match named? (String.ofList body) with
    | some c => .ok c
    | none => .error (.unknownName first last (String.ofList body))

/-- Expands the references of a text of which `place` bytes are done and `total`
bytes are there in all; `pending` holds the body of an open reference, last
character first, and the place where it starts. -/
def expandFrom (total : Nat) (place : Nat) (pending : Option (Nat × List Char)) :
    List Char → Except ReferenceFault (List Char)
  | [] => match pending with
    | none => .ok []
    | some (first, _) => .error (.unterminated (first - 1) total)
  | c :: rest =>
    let next := place + c.utf8Size
    match pending with
    | none =>
      if c = '&' then expandFrom total next (some (next, [])) rest
      else (expandFrom total next none rest).map (c :: ·)
    | some (first, body) =>
      if c = ';' then do
        let d ← resolve first place body.reverse
        (expandFrom total next none rest).map (d :: ·)
      else if c = '&' then .error (.unterminated (first - 1) total)
      else expandFrom total next (some (first, c :: body)) rest

/-- The text with its references expanded. -/
def expand (cs : List Char) : Except ReferenceFault (List Char) :=
  expandFrom (byteLength cs) 0 none cs

end Reference

end EntitySchema.Xml
