import EntitySchema.Text.Numeral

/-! Values of a TOML text that are single words: truth values, integers, floating-point
numbers, dates and times. Only their form matters here, and the ranges that belong to
it. -/

namespace EntitySchema.Toml

/-! ### Numbers -/

/-- Digits of a kind, with single underscores between them. -/
def isDigits (isDigit : Char → Bool) : List Char → Bool
  | [] => false
  | [c] => isDigit c
  | c :: '_' :: rest => isDigit c && isDigits isDigit rest
  | c :: rest => isDigit c && isDigits isDigit rest

/-- The digits without the underscores between them. -/
def plainDigits (cs : List Char) : List Char := cs.filter (· ≠ '_')

/-- A number without its sign. -/
def unsigned : List Char → List Char
  | '-' :: rest | '+' :: rest => rest
  | cs => cs

/-- Decimal digits without a leading zero. -/
def isWhole (cs : List Char) : Bool :=
  isDigits Char.isDigit cs && (cs.length = 1 || cs.head? ≠ some '0')

/-- The largest integer of 64 bits with a sign; there is one more below zero. -/
def maxInteger : Nat := 9223372036854775807

/-- An integer in a base other than ten, which has no sign. -/
def isBased (base : Nat) (isDigit : Char → Bool) (cs : List Char) : Bool :=
  isDigits isDigit cs &&
    (plainDigits cs).foldl (fun n c => base * n + (Text.Numeral.hexValue? c).getD 0) 0 ≤ maxInteger

/-- An integer of 64 bits. -/
def isInteger : List Char → Bool
  | '0' :: 'x' :: digits => isBased 16 (fun c => (Text.Numeral.hexValue? c).isSome) digits
  | '0' :: 'o' :: digits => isBased 8 (fun c => '0' ≤ c && c ≤ '7') digits
  | '0' :: 'b' :: digits => isBased 2 (fun c => c = '0' || c = '1') digits
  | cs =>
    let negative := cs.head? = some '-'
    isWhole (unsigned cs) && Nat.ofDigitChars 10 (plainDigits (unsigned cs)) 0 ≤
      (if negative then maxInteger + 1 else maxInteger)

/-- The sign and the digits of an exponent, after its letter. -/
def isExponent (cs : List Char) : Bool := isDigits Char.isDigit (unsigned cs)

/-- The number that an exponent writes. -/
def exponentValue (cs : List Char) : Int :=
  let size := Nat.ofDigitChars 10 (plainDigits (unsigned cs)) 0
  if cs.head? = some '-' then -size else size

/-- The least number that is rounded to infinity and not to the largest number of 64
bits: the middle between that one and the power of two after it. -/
def floatLimit : Nat := Nat.pow 2 1024 - Nat.pow 2 970

/-- Digits times a power of ten are rounded to infinity. The limit has 309 digits, so
most numbers are told by their length. -/
def isInfinite (digits : List Char) (exponent : Int) : Bool :=
  let n := Nat.ofDigitChars 10 digits 0
  let length := (digits.dropWhile (· = '0')).length + exponent
  n ≠ 0 && (309 < length || (length = 309 &&
    floatLimit * Nat.pow 10 (-exponent).toNat ≤ n * Nat.pow 10 exponent.toNat))

/-- A floating-point number: a fraction, an exponent or both, after a whole number. A
positive one must not be so large that it is rounded to infinity. -/
def isFloat (cs : List Char) : Bool :=
  let word := unsigned cs
  let isExponentMark := fun c => c = 'e' || c = 'E'
  let mantissa := word.takeWhile (!isExponentMark ·)
  let exponent := (word.dropWhile (!isExponentMark ·)).drop 1
  let hasExponent := word.any isExponentMark
  let whole := mantissa.takeWhile (· ≠ '.')
  let fraction := (mantissa.dropWhile (· ≠ '.')).drop 1
  let hasFraction := mantissa.contains '.'
  let digits := plainDigits fraction
  word = "inf".toList || word = "nan".toList ||
    (isWhole whole && (hasFraction || hasExponent) &&
      (!hasFraction || isDigits Char.isDigit fraction) &&
      (!hasExponent || isExponent exponent) &&
      (cs.head? = some '-' ||
        !isInfinite (plainDigits whole ++ digits) (exponentValue exponent - digits.length)))

/-! ### Dates and times -/

/-- A number of exactly as many digits, between two bounds. -/
def isCount (length first last : Nat) (cs : List Char) : Bool :=
  cs.length = length && match Text.Numeral.digits? 0 cs with
    | some n => first ≤ n && n ≤ last
    | none => false

def isLeapYear (year : Nat) : Bool := year % 4 = 0 && (year % 100 ≠ 0 || year % 400 = 0)

def daysOfMonth (year month : Nat) : Nat :=
  if month = 2 then (if isLeapYear year then 29 else 28)
  else if [4, 6, 9, 11].contains month then 30
  else 31

/-- A day: its year, month and day with hyphens between them. -/
def isDate : List Char → Bool
  | [a, b, c, d, '-', e, f, '-', g, h] =>
    let number := fun cs => Nat.ofDigitChars 10 cs 0
    isCount 4 0 9999 [a, b, c, d] && isCount 2 1 12 [e, f] &&
      isCount 2 1 (daysOfMonth (number [a, b, c, d]) (number [e, f])) [g, h]
  | _ => false

/-- A time of a day: hours, minutes and seconds, which may have a fraction. -/
def isTime : List Char → Bool
  | a :: b :: ':' :: c :: d :: ':' :: e :: f :: fraction =>
    isCount 2 0 23 [a, b] && isCount 2 0 59 [c, d] && isCount 2 0 60 [e, f] &&
      match fraction with
      | [] => true
      | '.' :: digits => digits ≠ [] && digits.all Char.isDigit
      | _ => false
  | _ => false

/-- The distance of a time from the standard time: a letter, or hours and minutes. -/
def isOffset : List Char → Bool
  | ['Z'] | ['z'] => true
  | sign :: a :: b :: ':' :: c :: [d] =>
    (sign = '+' || sign = '-') && isCount 2 0 23 [a, b] && isCount 2 0 59 [c, d]
  | _ => false

/-- A time of a day that may have an offset. -/
def isZonedTime (cs : List Char) : Bool :=
  let isTimeChar := fun (c : Char) => c.isDigit || c = ':' || c = '.'
  let offset := cs.dropWhile isTimeChar
  isTime (cs.takeWhile isTimeChar) && (offset = [] || isOffset offset)

/-- A day, a time of a day, or both with a letter or a space between them. -/
def isMoment (cs : List Char) : Bool :=
  isDate cs || isTime cs || match cs.drop 10 with
    | delimiter :: time =>
      isDate (cs.take 10) && ['T', 't', ' '].contains delimiter && isZonedTime time
    | [] => false

/-! ### Words -/

def isWord (cs : List Char) : Bool :=
  cs = "true".toList || cs = "false".toList || isInteger cs || isFloat cs || isMoment cs

/-- A character of a word. -/
def isWordChar (c : Char) : Bool :=
  c.isAlphanum || c = '_' || c = '+' || c = '-' || c = '.' || c = ':'

/-- Splits a text after its first word. A day may have a space and a time after it. -/
def splitWord (cs : List Char) : List Char × List Char :=
  let word := cs.takeWhile isWordChar
  match cs.dropWhile isWordChar with
  | ' ' :: c :: rest =>
    if isDate word && c.isDigit then
      (word ++ ' ' :: (c :: rest).takeWhile isWordChar, (c :: rest).dropWhile isWordChar)
    else (word, ' ' :: c :: rest)
  | after => (word, after)

end EntitySchema.Toml
