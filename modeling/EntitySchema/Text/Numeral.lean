import EntitySchema.Text.Blank

/-! Digits and numerals. Attributes write natural numbers with at most one plus
sign and ASCII digits, leading zeros allowed. A reader names the largest number
that its place can hold; a larger one is refused, never cut. -/

namespace EntitySchema.Text.Numeral

/-- The value of a digit in base sixteen, in either letter case. -/
def hexValue? (c : Char) : Option Nat :=
  if c.isDigit then some (c.toNat - '0'.toNat)
  else if 'a' ≤ c && c ≤ 'f' then some (c.toNat - 'a'.toNat + 10)
  else if 'A' ≤ c && c ≤ 'F' then some (c.toNat - 'A'.toNat + 10)
  else none

/-- The number that digits in base sixteen write after `acc`. -/
def hex? (acc : Nat) : List Char → Option Nat
  | [] => some acc
  | c :: rest => do hex? (16 * acc + (← hexValue? c)) rest

/-- The character whose code point digits in base sixteen write. -/
def hexChar? (digits : List Char) : Option Char := do
  let n ← hex? 0 digits
  if n.isValidChar then some (Char.ofNat n) else none

/-- The number that a run of ASCII digits writes after `acc`. -/
def digits? (acc : Nat) : List Char → Option Nat
  | [] => some acc
  | c :: rest => if c.isDigit then digits? (10 * acc + (c.toNat - '0'.toNat)) rest else none

/-- A plus sign, if there is one, and at least one digit. -/
def read? (largest : Nat) (s : String) : Option Nat :=
  let unsigned := match s.toList with
    | '+' :: rest => rest
    | cs => cs
  match unsigned with
  | [] => none
  | cs => (digits? 0 cs).filter (· ≤ largest)

/-- The largest number of 64 bits, which bounds lengths and limits. -/
def max64 : Nat := 18446744073709551615

/-- The largest number of 32 bits, which bounds allocation sizes. -/
def max32 : Nat := 4294967295

/-- The last five decimal digits of a number, zeros included. -/
def lastFive (n : Nat) : List Char :=
  [n / 10000, n / 1000, n / 100, n / 10, n].map fun d => Nat.digitChar (d % 10)

end EntitySchema.Text.Numeral
