import EntitySchema.Options.Yaml.Token

/-! The node that the tokens of a YAML text make: a scalar, a list or a mapping, or a
reference to a node with an anchor. A node that is left out is an empty plain scalar. -/

namespace EntitySchema.Yaml

inductive Node where
  | scalar (text : String) (plain : Bool)
  | list (items : List Node)
  | mapping (entries : List (Node × Node))
  /-- A node with an anchor. -/
  | anchored (number : Nat) (node : Node)
  /-- A node with a tag. -/
  | tagged (name : String) (node : Node)
  /-- The node with the anchor, once more. -/
  | reference (number : Nat)
  deriving Repr, Inhabited

namespace Node

/-- The node that stands for none. -/
def empty : Node := scalar "" true

/-- What stands before a node. -/
structure Marks where
  anchor : Option Nat := none
  /-- The tag, if there is one, which may have a name. -/
  tag : Option (Option String) := none

namespace Marks

def isEmpty (m : Marks) : Bool := m.anchor.isNone && m.tag.isNone

/-- The node with what stands before it. -/
def mark (m : Marks) (node : Node) : Node :=
  let node := match m.tag with
    | some (some name) => tagged name node
    | _ => node
  match m.anchor with
  | some number => anchored number node
  | none => node

/-- An anchor and a tag, in either order, and the tokens after them. -/
def read : List Token → Marks × List Token
  | .anchor n :: .tag t :: rest | .tag t :: .anchor n :: rest => (⟨some n, some t⟩, rest)
  | .anchor n :: rest => (⟨some n, none⟩, rest)
  | .tag t :: rest => (⟨none, some t⟩, rest)
  | rest => ({}, rest)

end Marks

/-- Where a node stands. -/
inductive Context where
  /-- Inside brackets, where there are no block collections. -/
  | flow
  /-- A document, or an item of a block list. -/
  | block
  /-- In a block mapping. There the hyphens of a list may stand below the key. -/
  | entry
  deriving DecidableEq, Repr

/-- Tokens that a node in a block mapping cannot begin with. -/
def entryStops : List Token := [.key, .value, .closeBlock]

mutual

/-- A node, and the tokens after it. Only one with an anchor or a tag may be empty, and
only one without them a reference. -/
def read (context : Context) : Nat → List Token → Option (Node × List Token)
  | 0, _ => none
  | fuel + 1, tokens =>
    let (marks, tokens) := Marks.read tokens
    match tokens with
    | .scalar text plain :: rest => some (marks.mark (scalar text plain), rest)
    | .openList :: rest => do
      let (items, rest) ← readFlowItems fuel rest
      pure (marks.mark (list items), rest)
    | .openMapping :: rest => do
      let (entries, rest) ← readFlowEntries fuel rest
      pure (marks.mark (mapping entries), rest)
    | .openBlockList :: rest =>
      if context = .flow then none
      else do
        let (items, rest) ← readItems fuel rest
        pure (marks.mark (list items), rest)
    | .openBlockMapping :: rest =>
      if context = .flow then none
      else do
        let (entries, rest) ← readEntries fuel rest
        pure (marks.mark (mapping entries), rest)
    | .hyphen :: _ =>
      if context = .entry then do
        let (items, rest) ← readItemsBelow fuel tokens
        pure (marks.mark (list items), rest)
      else if marks.isEmpty then none
      else some (marks.mark empty, tokens)
    | .reference number :: rest =>
      if marks.isEmpty then some (reference number, rest) else none
    | _ => if marks.isEmpty then none else some (marks.mark empty, tokens)

/-- A node, unless a token stands there that no node begins with. -/
def readOptional (context : Context) (stops : List Token) :
    Nat → List Token → Option (Node × List Token)
  | 0, _ => none
  | fuel + 1, tokens =>
    if tokens.head?.any stops.contains then some (empty, tokens) else read context fuel tokens

/-- A value with its mark, or none. -/
def readValue (context : Context) (stops : List Token) :
    Nat → List Token → Option (Node × List Token)
  | 0, _ => none
  | fuel + 1, .value :: rest => readOptional context stops fuel rest
  | _ + 1, tokens => some (empty, tokens)

/-- The items of a block list, up to its end. -/
def readItems : Nat → List Token → Option (List Node × List Token)
  | 0, _ => none
  | fuel + 1, .hyphen :: rest => do
    let (item, rest) ← readOptional .block [.hyphen, .closeBlock] fuel rest
    let (items, rest) ← readItems fuel rest
    pure (item :: items, rest)
  | _ + 1, .closeBlock :: rest => some ([], rest)
  | _ + 1, _ => none

/-- The items of a list whose hyphens stand below a key. It ends with the hyphens. -/
def readItemsBelow : Nat → List Token → Option (List Node × List Token)
  | 0, _ => none
  | fuel + 1, .hyphen :: rest => do
    let (item, rest) ← readOptional .block (.hyphen :: entryStops) fuel rest
    let (items, rest) ← readItemsBelow fuel rest
    pure (item :: items, rest)
  | _ + 1, tokens => some ([], tokens)

/-- The entries of a block mapping, up to its end. -/
def readEntries : Nat → List Token → Option (List (Node × Node) × List Token)
  | 0, _ => none
  | fuel + 1, .key :: rest => do
    let (key, rest) ← readOptional .entry entryStops fuel rest
    let (value, rest) ← readValue .entry entryStops fuel rest
    let (entries, rest) ← readEntries fuel rest
    pure ((key, value) :: entries, rest)
  | _ + 1, .closeBlock :: rest => some ([], rest)
  | _ + 1, _ => none

/-- An entry of a mapping that is an item of a list in brackets. Where the key is left
out, the token after it goes with it. -/
def readPair : Nat → List Token → Option (Node × List Token)
  | 0, _ => none
  | fuel + 1, tokens => do
    let (key, rest) ←
      if tokens.head?.any [Token.value, .comma, .closeList].contains then
        some (empty, tokens.drop 1)
      else read .flow fuel tokens
    let (value, rest) ← readValue .flow [.comma, .closeList] fuel rest
    pure (mapping [(key, value)], rest)

/-- The items of a list in brackets, up to its end. The last may be followed by a
comma. -/
def readFlowItems : Nat → List Token → Option (List Node × List Token)
  | 0, _ => none
  | _ + 1, .closeList :: rest => some ([], rest)
  | fuel + 1, tokens => do
    let (item, rest) ← match tokens with
      | .key :: rest => readPair fuel rest
      | _ => read .flow fuel tokens
    match rest with
    | .comma :: rest => do
      let (items, rest) ← readFlowItems fuel rest
      pure (item :: items, rest)
    | .closeList :: rest => pure ([item], rest)
    | _ => none

/-- The entries of a mapping in braces, up to its end. The last may be followed by a
comma, and a key without its mark has no value. -/
def readFlowEntries : Nat → List Token → Option (List (Node × Node) × List Token)
  | 0, _ => none
  | _ + 1, .closeMapping :: rest => some ([], rest)
  | fuel + 1, tokens => do
    let (entry, rest) ← match tokens with
      | .key :: rest => do
        let (key, rest) ← readOptional .flow [.value, .comma, .closeMapping] fuel rest
        let (value, rest) ← readValue .flow [.comma, .closeMapping] fuel rest
        pure ((key, value), rest)
      | _ => do
        let (key, rest) ← read .flow fuel tokens
        pure ((key, empty), rest)
    match rest with
    | .comma :: rest => do
      let (entries, rest) ← readFlowEntries fuel rest
      pure (entry :: entries, rest)
    | .closeMapping :: rest => pure ([entry], rest)
    | _ => none

end

/-- The node of a document that has begun. -/
def readDocument (tokens : List Token) : Option (Node × List Token) :=
  match tokens with
  | [] => some (empty, [])
  | _ => readOptional .block [.documentStart, .documentEnd] (4 * tokens.length + 2) tokens

/-- The node of a text that holds at most one document. One with directives has a mark
where it starts. -/
def ofTokens? (tokens : List Token) : Option Node := do
  let (node, rest) ← match tokens.dropWhile (· = .directive) with
    | .documentStart :: rest => readDocument rest
    | _ =>
      if tokens = [] then some (empty, []) else read .block (4 * tokens.length + 2) tokens
  if rest.all (· = .documentEnd) then pure node else none

end Node

end EntitySchema.Yaml
