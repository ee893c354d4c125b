import EntitySchema.Options.Toml.Scalar
import EntitySchema.Options.Toml.Table
import EntitySchema.Options.Toml.Text

/-! Option files in TOML: lines that define values by their keys, and headers of tables
between them. -/

namespace EntitySchema.Toml

/-! ### Keys -/

/-- A character of a key without quotes. -/
def isKeyChar (c : Char) : Bool := c.isAlphanum || c = '_' || c = '-'

/-- One part of a key. -/
def readKeyPart (cs : List Char) : Option (String × List Char) :=
  match cs.takeWhile isKeyChar with
  | [] => do
    let (part, after) ← readLine cs
    pure (String.ofList part, after)
  | word => some (String.ofList word, cs.dropWhile isKeyChar)

/-- How many lists and tables may stand one inside the other, and how many parts a key
may have. -/
def maxNesting : Nat := 79

/-- The parts of a key, with dots between them and blanks around these; there are at most
as many as `count`. -/
def readKeyParts : Nat → List Char → Option (List String × List Char)
  | 0, _ => none
  | count + 1, cs => do
    let (part, after) ← readKeyPart (skipBlanks cs)
    match skipBlanks after with
    | '.' :: rest => do
      let (parts, after) ← readKeyParts count rest
      pure (part :: parts, after)
    | after => pure ([part], after)

def readKey (cs : List Char) : Option (List String × List Char) := readKeyParts maxNesting cs

/-- Splits a key before its last part. -/
def splitKey (key : List String) : List String × String := (key.dropLast, key.getLast?.getD "")

/-! ### Values -/

mutual

/-- A value, with at most `depth` lists and tables one inside the other. -/
def readValue (depth : Nat) : Nat → List Char → Option (Setting × List Char)
  | 0, _ => none
  | fuel + 1, cs =>
    match cs, depth with
    | '[' :: _, 0 | '\x7b' :: _, 0 => none
    | '[' :: rest, depth + 1 => do
      let (items, after) ← readItems depth fuel rest
      pure (.list items, after)
    | '\x7b' :: rest, depth + 1 => do
      let (members, after) ← match skipBlanks rest with
        | '\x7d' :: after => some ([], after)
        | _ => readMembers depth fuel [] rest
      pure (.table (Item.settings members), after)
    | '"' :: _, _ | '\'' :: _, _ => do
      let (s, after) ← readString cs
      pure (.text (String.ofList s), after)
    | _, _ =>
      let (word, after) := splitWord cs
      if isWord word then some (.other, after) else none

/-- The items of a list, up to its closing bracket. The last may be followed by a
comma, and lines may end between them. -/
def readItems (depth : Nat) : Nat → List Char → Option (List Setting × List Char)
  | 0, _ => none
  | fuel + 1, cs =>
    match skipLines cs.length cs with
    | ']' :: after => some ([], after)
    | cs => do
      let (item, after) ← readValue depth fuel cs
      match skipLines after.length after with
      | ']' :: after => pure ([item], after)
      | ',' :: after => do
        let (items, after) ← readItems depth fuel after
        pure (item :: items, after)
      | _ => none

/-- The members of a table in braces, added to those before them, up to its closing
brace. It stands on one line. -/
def readMembers (depth : Nat) : Nat → Members → List Char → Option (Members × List Char)
  | 0, _, _ => none
  | fuel + 1, members, cs => do
    let (key, after) ← readKey cs
    match after with
    | '=' :: rest => do
      let (value, after) ← readValue depth fuel (skipBlanks rest)
      let (path, name) := splitKey key
      let members ← members.define path name value
      match skipBlanks after with
      | '\x7d' :: after => pure (members, after)
      | ',' :: after => readMembers depth fuel members after
      | _ => none
    | _ => none

end

/-! ### Lines -/

/-- Reads the lines of a table and of all tables after it into the members that the
text has so far. -/
def readLines : Nat → List String → Members → List Char → Option Members
  | 0, _, _, _ => none
  | fuel + 1, table, members, cs =>
    match skipLines cs.length cs with
    | [] => some members
    | '[' :: '[' :: rest => do
      let (key, after) ← readKey rest
      let (path, name) := splitKey key
      match after with
      | ']' :: ']' :: after => do
        let members ← members.change false .headed (fun inner _ => inner.openNext name) path
        readLines fuel key members (← endLine? after)
      | _ => none
    | '[' :: rest => do
      let (key, after) ← readKey rest
      let (path, name) := splitKey key
      match after with
      | ']' :: after => do
        let members ← members.change false .headed (fun inner _ => inner.openTable name) path
        readLines fuel key members (← endLine? after)
      | _ => none
    | cs => do
      let (key, after) ← readKey cs
      let (path, name) := splitKey key
      match after with
      | '=' :: rest => do
        let (value, after) ← readValue maxNesting (2 * rest.length + 1) (skipBlanks rest)
        let members ←
          members.change false .headed (fun inner _ => inner.define path name value) table
        readLines fuel table members (← endLine? after)
      | _ => none

/-- The settings in a file. -/
def read? (text : String) : Option (List (String × Setting)) := do
  let cs := text.toList
  let cs := if cs.head? = some (Char.ofNat 0xFEFF) then cs.drop 1 else cs
  pure (Item.settings (← readLines (cs.length + 1) [] [] cs))

end EntitySchema.Toml
