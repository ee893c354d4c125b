import EntitySchema.Json

/-! The written form of JSON values: `pretty` puts every item and member on a
line of its own, indented by two spaces a level, and `compact` writes one line.
Both write characters beyond ASCII as they are. -/

namespace EntitySchema.Json

/-- A digit in base sixteen, in lower case. -/
def hexDigit (n : Nat) : Char := Nat.digitChar (n % 16)

/-- A character inside quotes. -/
def escape (c : Char) : List Char :=
  if c = '"' then ['\\', '"']
  else if c = '\\' then ['\\', '\\']
  else if c = '\n' then ['\\', 'n']
  else if c = '\r' then ['\\', 'r']
  else if c = '\t' then ['\\', 't']
  else if c.toNat = 8 then ['\\', 'b']
  else if c.toNat = 12 then ['\\', 'f']
  else if c.toNat < 0x20 then ['\\', 'u', '0', '0', hexDigit (c.toNat / 16), hexDigit c.toNat]
  else [c]

def quoted (s : String) : List Char := '"' :: (s.toList.flatMap escape ++ ['"'])

/-- The start of a line at a depth. -/
def newline (depth : Nat) : List Char := '\n' :: List.replicate (2 * depth) ' '

mutual

/-- A value, the lines inside it indented by one level more than `depth`. -/
def prettyAt (depth : Nat) : Json → List Char
  | null => "null".toList
  | bool true => "true".toList
  | bool false => "false".toList
  | num n => Nat.toDigits 10 n
  | str s => quoted s
  | arr [] => ['[', ']']
  | arr (item :: items) =>
    '[' :: (newline (depth + 1) ++ prettyAt (depth + 1) item ++ prettyItems (depth + 1) items ++
      newline depth ++ [']'])
  | obj [] => ['\x7b', '\x7d']
  | obj ((name, value) :: members) =>
    '\x7b' :: (newline (depth + 1) ++ quoted name ++ [':', ' '] ++ prettyAt (depth + 1) value ++
      prettyMembers (depth + 1) members ++ newline depth ++ ['\x7d'])

/-- Further items of a list. -/
def prettyItems (depth : Nat) : List Json → List Char
  | [] => []
  | item :: items => ',' :: (newline depth ++ prettyAt depth item ++ prettyItems depth items)

/-- Further members of an object. -/
def prettyMembers (depth : Nat) : List (String × Json) → List Char
  | [] => []
  | (name, value) :: members =>
    ',' :: (newline depth ++ quoted name ++ [':', ' '] ++ prettyAt depth value ++
      prettyMembers depth members)

end

def pretty (j : Json) : String := String.ofList (prettyAt 0 j)

mutual

/-- A value in one line. -/
def inLine : Json → List Char
  | null => "null".toList
  | bool true => "true".toList
  | bool false => "false".toList
  | num n => Nat.toDigits 10 n
  | str s => quoted s
  | arr [] => ['[', ']']
  | arr (item :: items) => '[' :: (inLine item ++ inLineItems items ++ [']'])
  | obj [] => ['\x7b', '\x7d']
  | obj ((name, value) :: members) =>
    '\x7b' :: (quoted name ++ ':' :: inLine value ++ inLineMembers members ++ ['\x7d'])

def inLineItems : List Json → List Char
  | [] => []
  | item :: items => ',' :: (inLine item ++ inLineItems items)

def inLineMembers : List (String × Json) → List Char
  | [] => []
  | (name, value) :: members =>
    ',' :: (quoted name ++ ':' :: inLine value ++ inLineMembers members)

end

def compact (j : Json) : String := String.ofList (inLine j)

end EntitySchema.Json
