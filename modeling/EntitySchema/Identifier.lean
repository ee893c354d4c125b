import EntitySchema.Identifier.Reserved
import EntitySchema.Text.Digest
import EntitySchema.Text.Numeral

/-! Identifiers: which names are legal, how a name that is too long is cut to the
limit of a dialect, and how a name that is not taken is found. -/

namespace EntitySchema.Identifier

/-- Why a name is refused. -/
inductive Fault where
  /-- White space in a name; `role` says what the name is for. -/
  | spaced (role name : String)
  | reserved (role name : String) (dialect : Dialect)
  | tooLong (what : String) (limit : Nat) (dialect : Dialect)
  /-- Two fields become one in lower case. -/
  | sameInLowerCase (old new entity : String)
  deriving DecidableEq, Repr

def Fault.detail : Fault → String
  | .spaced role name => s!"{role} name '{name}' contains whitespace"
  | .reserved role name dialect =>
    s!"{role} name '{name}' is a reserved word for dialect {dialect.name}"
  | .tooLong what limit dialect =>
    s!"{what} is longer than {limit} characters allowed by dialect {dialect.name}"
  | .sameInLowerCase old new entity =>
    s!"fields '{old}' and '{new}' of entity '{entity}' differ only in case"

/-- A legal identifier has no white space in it and is not reserved. -/
def check (role name : String) (dialect : Dialect) : Except Fault Unit :=
  if Text.hasSpace name then .error (.spaced role name)
  else if isReserved name dialect then .error (.reserved role name dialect)
  else .ok ()

/-! ### Names of limited length -/

/-- How many digits of the digest stand at the end of a cut name. -/
def digestLength : Nat := 5

/-- Five digits that tell apart names with a common beginning. -/
def digest (name : String) : List Char :=
  Text.Numeral.lastFive (Text.Digest.prefix64 name.toUTF8.toList)

/-- A name over the limit keeps its first characters, and the digest of the
whole name takes the last five places. -/
def mangle (name : String) (limit? : Option Nat) : String :=
  match limit? with
  | none => name
  | some limit =>
    if digestLength < limit && limit < name.length then
      String.ofList (name.toList.take (limit - digestLength) ++ digest name)
    else name

/-! ### Free names -/

/-- The `n`-th name to try: the base itself, then the base with a suffix, then
with a numbered suffix. -/
def candidate (base : String) : Nat → String
  | 0 => base
  | 1 => base ++ "_mref"
  | n => s!"{base}_mref_{n}"

/-- The first candidate from the `n`-th on whose mangled form is not taken,
among the next `fuel` ones. -/
def seekFree (base : String) (limit? : Option Nat) (taken : List String) : Nat → Nat → Option String
  | 0, _ => none
  | fuel + 1, n =>
    let name := mangle (candidate base n) limit?
    if taken.contains name then seekFree base limit? taken fuel (n + 1) else some name

/-- How many candidates are tried. Without a limit the candidates are distinct
and one more than the taken names is enough; cut names can coincide, in as many
ways as there are digests. -/
def attempts (limit? : Option Nat) (taken : List String) : Nat :=
  match limit? with
  | none => taken.length + 1
  | some _ => (taken.length + 1) * Nat.pow 10 digestLength

/-- The first candidate of the base whose mangled form is not taken. -/
def free? (base : String) (limit? : Option Nat) (taken : List String) : Option String :=
  seekFree base limit? taken (attempts limit? taken) 0

end EntitySchema.Identifier
