import EntitySchema.Xml.Element
import EntitySchema.Xml.Reference

/-! Tags, given what stands between the angle brackets: a name up to the first
space, then attributes. Every attribute is a key, an equals sign and a quoted
value; no space is needed between one value and the next key. -/

namespace EntitySchema.Xml

/-- Space inside markup. -/
def isSpace (c : Char) : Bool := c = ' ' || c = '\t' || c = '\r' || c = '\n'

/-- A name without its namespace: what follows the first colon. -/
def localName (name : List Char) : List Char :=
  match name.dropWhile (· ≠ ':') with
  | [] => name
  | _ :: rest => rest

namespace Tag

/-- The name of a tag: everything up to the first space. -/
def name (body : List Char) : List Char := body.takeWhile (!isSpace ·)

/-- An attribute as it stands in the tag. -/
structure RawAttribute where
  /-- Where the key starts, in bytes from the start of the tag's name. -/
  place : Nat
  key : List Char
  value : List Char

/-- The first attribute of what is left of a tag, and what follows it; nothing
if only space is left. The first character of a key may be any but space.
`seen` holds the attributes before it. -/
def nextAttribute (place : Nat) (cs : List Char) (seen : List RawAttribute) :
    Except AttributeFault (Option (RawAttribute × List Char)) :=
  let start := cs.dropWhile isSpace
  let keyPlace := place + byteLength (cs.takeWhile isSpace)
  match start with
  | [] => .ok none
  | first :: more =>
    let inKey (c : Char) : Bool := c ≠ '=' && !isSpace c
    let key := first :: more.takeWhile inKey
    let afterKey := more.dropWhile inKey
    let equals := afterKey.dropWhile isSpace
    let equalsPlace := keyPlace + byteLength key + byteLength (afterKey.takeWhile isSpace)
    match equals with
    | '=' :: afterEquals =>
      match seen.find? (·.key = key) with
      | some earlier => .error (.repeated keyPlace earlier.place)
      | none =>
        let value := afterEquals.dropWhile isSpace
        let valuePlace := equalsPlace + 1 + byteLength (afterEquals.takeWhile isSpace)
        match value with
        | [] => .error (.missingValue valuePlace)
        | quote :: afterQuote =>
          if quote = '"' || quote = '\'' then
            match afterQuote.dropWhile (· ≠ quote) with
            | [] => .error (.openQuote (valuePlace + 1 + byteLength afterQuote) quote)
            | _ :: rest => .ok (some (⟨keyPlace, key, afterQuote.takeWhile (· ≠ quote)⟩, rest))
          else .error (.unquotedValue valuePlace)
    | _ => .error (.missingEquals equalsPlace)

theorem length_dropWhile_le (p : Char → Bool) (cs : List Char) :
    (cs.dropWhile p).length ≤ cs.length :=
  (List.dropWhile_sublist p).length_le

/-- Reading an attribute uses up at least its first character. -/
theorem nextAttribute_length {place : Nat} {cs rest : List Char} {seen : List RawAttribute}
    {raw : RawAttribute} (h : nextAttribute place cs seen = .ok (some (raw, rest))) :
    rest.length < cs.length := by
  have hstart := length_dropWhile_le isSpace cs
  simp only [nextAttribute] at h
  split at h
  · simp at h
  · rename_i first more hs
    rw [hs] at hstart
    have hkey := length_dropWhile_le (fun c => (c ≠ '=' : Bool) && !isSpace c) more
    have heq := length_dropWhile_le isSpace (more.dropWhile fun c => (c ≠ '=' : Bool) && !isSpace c)
    split at h
    · rename_i afterEquals he
      rw [he] at heq
      split at h
      · simp at h
      · have hvalue := length_dropWhile_le isSpace afterEquals
        split at h
        · simp at h
        · rename_i quote afterQuote hv
          rw [hv] at hvalue
          have hrest := length_dropWhile_le (· ≠ quote) afterQuote
          split at h
          · split at h
            · simp at h
            · rename_i head tail hq
              rw [hq] at hrest
              simp only [Except.ok.injEq, Option.some.injEq, Prod.mk.injEq] at h
              obtain ⟨_, rfl⟩ := h
              simp only [List.length_cons] at *
              omega
          · simp at h
    · simp at h

/-- Key and value of an attribute as an element keeps them. -/
def readAttribute (raw : RawAttribute) : Except Fault (String × String) :=
  let key := String.ofList (localName raw.key)
  match Reference.expand raw.value with
  | .ok value => .ok (key, String.ofList value)
  | .error fault => .error (.value key fault)

/-- The attributes of what is left of a tag, in order. A fault in one of them
comes before any fault in a later one. -/
def attributesFrom (place : Nat) (cs : List Char) (seen : List RawAttribute) :
    Except Fault (List (String × String)) :=
  match _h : nextAttribute place cs seen with
  | .error fault => .error (.attributes fault)
  | .ok none => .ok []
  | .ok (some (raw, rest)) => do
    let entry ← readAttribute raw
    let others ← attributesFrom (place + byteLength cs - byteLength rest) rest (seen ++ [raw])
    pure (entry :: others)
termination_by cs.length
decreasing_by exact nextAttribute_length _h

/-- The element that a start tag opens, without anything inside yet. -/
def toElement (body : List Char) : Except Fault Element := do
  let attributes ← attributesFrom (byteLength (name body)) (body.dropWhile (!isSpace ·)) []
  pure ⟨String.ofList (localName (name body)), attributes, [], ""⟩

end Tag

end EntitySchema.Xml
