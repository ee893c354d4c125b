import EntitySchema.Xml.Tag
import EntitySchema.Text.Blank

/-! Documents. `lex` cuts a text into runs of text and pieces of markup, and
`parse` builds the tree of elements from them. Comments, instructions and
document types are passed over. Every fault carries its place, in bytes from the
start of the text. -/

namespace EntitySchema.Xml

/-- A piece of a document. -/
inductive Token where
  /-- A run of text without the space at its ends. -/
  | text (run : List Char)
  /-- Character data, which is taken as it stands. -/
  | data (cs : List Char)
  /-- A start tag, or the tag of an empty element, without its brackets and slash. -/
  | opening (body : List Char) (empty : Bool)
  | closing (name : List Char)
  | passedOver

/-- The pieces of a document up to its end or to the first fault. Each piece comes
with the place where a fault in it is reported. -/
inductive Lexed where
  | ended (place : Nat)
  | broken (place : Nat) (fault : DocumentFault)
  | piece (place : Nat) (token : Token) (rest : Lexed)

/-! ### Cutting at a mark -/

/-- What stands before the first occurrence of `mark`, and what follows it. -/
def cutAt (mark : List Char) : List Char → Option (List Char × List Char)
  | [] => none
  | c :: rest =>
    if mark.isPrefixOf (c :: rest) then some ([], (c :: rest).drop mark.length)
    else (cutAt mark rest).map fun (before, after) => (c :: before, after)

/-- What stands before the first closing bracket outside quotes, and what follows
it; `quote` is the quote that is open. -/
def cutTag : Option Char → List Char → Option (List Char × List Char)
  | _, [] => none
  | none, c :: rest =>
    if c = '>' then some ([], rest)
    else (cutTag (if c = '"' || c = '\'' then some c else none) rest).map
      fun (before, after) => (c :: before, after)
  | some quote, c :: rest =>
    (cutTag (if c = quote then none else some quote) rest).map
      fun (before, after) => (c :: before, after)

/-- What stands before the closing bracket that matches an opening one before the
text, and what follows it; `depth` more brackets are open. -/
def cutBalanced : Nat → List Char → Option (List Char × List Char)
  | _, [] => none
  | depth, c :: rest =>
    if c = '>' && depth == 0 then some ([], rest)
    else
      let inner := if c = '<' then depth + 1 else if c = '>' then depth - 1 else depth
      (cutBalanced inner rest).map fun (before, after) => (c :: before, after)

theorem cutAt_length {mark cs before after : List Char} (h : cutAt mark cs = some (before, after)) :
    after.length ≤ cs.length := by
  induction cs generalizing before with
  | nil => simp [cutAt] at h
  | cons c rest ih =>
    simp only [cutAt] at h
    split at h
    · simp only [Option.some.injEq, Prod.mk.injEq] at h
      obtain ⟨_, rfl⟩ := h
      simp
    · simp only [Option.map_eq_some_iff, Prod.mk.injEq] at h
      obtain ⟨⟨b, a⟩, hr, _, rfl⟩ := h
      exact Nat.le_succ_of_le (ih hr)

theorem cutTag_length {quote : Option Char} {cs before after : List Char}
    (h : cutTag quote cs = some (before, after)) : after.length ≤ cs.length := by
  induction cs generalizing quote before with
  | nil => cases quote <;> simp [cutTag] at h
  | cons c rest ih =>
    cases quote with
    | none =>
      simp only [cutTag] at h
      split at h
      · simp only [Option.some.injEq, Prod.mk.injEq] at h
        obtain ⟨_, rfl⟩ := h
        simp
      · simp only [Option.map_eq_some_iff, Prod.mk.injEq] at h
        obtain ⟨⟨b, a⟩, hr, _, rfl⟩ := h
        exact Nat.le_succ_of_le (ih hr)
    | some q =>
      simp only [cutTag, Option.map_eq_some_iff, Prod.mk.injEq] at h
      obtain ⟨⟨b, a⟩, hr, _, rfl⟩ := h
      exact Nat.le_succ_of_le (ih hr)

theorem cutBalanced_length {depth : Nat} {cs before after : List Char}
    (h : cutBalanced depth cs = some (before, after)) : after.length ≤ cs.length := by
  induction cs generalizing depth before with
  | nil => simp [cutBalanced] at h
  | cons c rest ih =>
    simp only [cutBalanced] at h
    split at h
    · simp only [Option.some.injEq, Prod.mk.injEq] at h
      obtain ⟨_, rfl⟩ := h
      simp
    · simp only [Option.map_eq_some_iff, Prod.mk.injEq] at h
      obtain ⟨⟨b, a⟩, hr, _, rfl⟩ := h
      exact Nat.le_succ_of_le (ih hr)

/-! ### Markup -/

/-- A declaration: character data, a comment or a document type. `place` is the
place of its opening bracket, `cs` follows the exclamation mark. -/
def lexDeclaration (place : Nat) (cs : List Char) :
    Except (Nat × DocumentFault) (Token × List Char) :=
  match cs with
  | '[' :: _ =>
    match if "[CDATA[".toList.isPrefixOf cs then cutAt "]]>".toList (cs.drop 7) else none with
    | some (inside, rest) => .ok (.data inside, rest)
    | none => .error (place, .openCharacterData)
  | '-' :: _ =>
    match if "--".toList.isPrefixOf cs then cutAt "-->".toList (cs.drop 2) else none with
    | some (_, rest) => .ok (.passedOver, rest)
    | none => .error (place, .openComment)
  | 'D' :: _ | 'd' :: _ =>
    match if (cs.take 7).map Char.toUpper = "DOCTYPE".toList then cutBalanced 0 (cs.drop 7)
      else none with
    | some (inside, rest) =>
      if inside.all isSpace then .error (place + 9 + byteLength inside, .unnamedDoctype)
      else .ok (.passedOver, rest)
    | none => .error (place, .openDoctype)
  | _ => .error (place, .unknownMarkup)

/-- The name in an end tag: space after it does not belong to it. -/
def endName (body : List Char) : List Char :=
  if body.all isSpace then body else (body.reverse.dropWhile isSpace).reverse

/-- The markup after an opening bracket at `place`, and what follows it. -/
def lexMarkup (place : Nat) (cs : List Char) :
    Except (Nat × DocumentFault) (Token × List Char) :=
  match cs with
  | '!' :: rest => lexDeclaration place rest
  | '?' :: '>' :: _ => .error (place, .openInstruction)
  | '?' :: rest =>
    match cutAt "?>".toList rest with
    | some (_, rest) => .ok (.passedOver, rest)
    | none => .error (place, .openInstruction)
  | '/' :: rest =>
    match cutTag none rest with
    | some (body, rest) => .ok (.closing (endName body), rest)
    | none => .error (place, .openTag)
  | _ =>
    match cutTag none cs with
    | some (body, rest) =>
      match body.getLast? with
      | some '/' => .ok (.opening body.dropLast true, rest)
      | _ => .ok (.opening body false, rest)
    | none => .error (place, .openTag)

theorem lexDeclaration_length {place : Nat} {cs rest : List Char} {token : Token}
    (h : lexDeclaration place cs = .ok (token, rest)) : rest.length ≤ cs.length := by
  have hdrop : ∀ n, (cs.drop n).length ≤ cs.length := fun n => by simp
  simp only [lexDeclaration] at h
  split at h
  · split at h
    · rename_i hc
      simp only [Except.ok.injEq, Prod.mk.injEq] at h
      obtain ⟨_, rfl⟩ := h
      exact Nat.le_trans (cutAt_length (Option.ite_none_right_eq_some.mp hc).2) (hdrop 7)
    · simp at h
  · split at h
    · rename_i hc
      simp only [Except.ok.injEq, Prod.mk.injEq] at h
      obtain ⟨_, rfl⟩ := h
      exact Nat.le_trans (cutAt_length (Option.ite_none_right_eq_some.mp hc).2) (hdrop 2)
    · simp at h
  all_goals try
    split at h
    · rename_i hc
      split at h
      · simp at h
      · simp only [Except.ok.injEq, Prod.mk.injEq] at h
        obtain ⟨_, rfl⟩ := h
        exact Nat.le_trans (cutBalanced_length (Option.ite_none_right_eq_some.mp hc).2) (hdrop 7)
    · simp at h
  simp at h

theorem lexMarkup_length {place : Nat} {cs rest : List Char} {token : Token}
    (h : lexMarkup place cs = .ok (token, rest)) : rest.length ≤ cs.length := by
  simp only [lexMarkup] at h
  split at h
  · exact Nat.le_succ_of_le (lexDeclaration_length h)
  · simp at h
  · split at h
    · rename_i hc
      simp only [Except.ok.injEq, Prod.mk.injEq] at h
      obtain ⟨_, rfl⟩ := h
      exact Nat.le_succ_of_le (cutAt_length hc)
    · simp at h
  · split at h
    · rename_i hc
      simp only [Except.ok.injEq, Prod.mk.injEq] at h
      obtain ⟨_, rfl⟩ := h
      exact Nat.le_succ_of_le (cutTag_length hc)
    · simp at h
  · split at h
    · rename_i hc
      split at h <;> simp only [Except.ok.injEq, Prod.mk.injEq] at h <;>
        obtain ⟨_, rfl⟩ := h <;> exact cutTag_length hc
    · simp at h

/-! ### Pieces -/

/-- A run of text, unless nothing but space is in it, before the pieces that
follow. `place` is the place where the run ends. -/
def Lexed.addText (place : Nat) (run : List Char) (rest : Lexed) : Lexed :=
  match Text.strip isSpace run with
  | [] => rest
  | cs => .piece place (.text cs) rest

/-- Cuts what is left of a text, from `place` on. -/
def lexFrom (place : Nat) (cs : List Char) : Lexed :=
  let run := cs.takeWhile (· ≠ '<')
  let bracket := place + byteLength run
  match _hrest : cs.dropWhile (· ≠ '<') with
  | [] => .addText bracket run (.ended bracket)
  | _ :: after => .addText bracket run <|
    match _h : lexMarkup bracket after with
    | .error (spot, fault) => .broken spot fault
    | .ok (token, rest) =>
      .piece bracket token (lexFrom (bracket + 1 + byteLength after - byteLength rest) rest)
termination_by cs.length
decreasing_by
  have hle := lexMarkup_length _h
  have hdrop := Tag.length_dropWhile_le (· ≠ '<') cs
  rw [_hrest, List.length_cons] at hdrop
  omega

/-- Cuts a text; a byte order mark at its start does not count. -/
def lex (text : String) : Lexed :=
  match text.toList with
  | c :: rest => if c.toNat = 0xFEFF then lexFrom 0 rest else lexFrom 0 (c :: rest)
  | [] => .ended 0

/-! ### The tree -/

/-- Elements that are open, innermost first, each with its name as written, and
the root element once it is closed. -/
structure Progress where
  opened : List (List Char × Element) := []
  root : Option Element := none

namespace Progress

/-- A finished element goes into the innermost open one, or becomes the root. -/
def attach (p : Progress) (e : Element) : Except Fault Progress :=
  match p.opened with
  | (name, parent) :: outer =>
    .ok { p with opened := (name, { parent with children := parent.children ++ [e] }) :: outer }
  | [] => match p.root with
    | none => .ok { p with root := some e }
    | some _ => .error (.secondRoot e.name)

/-- Text goes into the innermost open element; outside of all elements it is
dropped. -/
def addText (p : Progress) (join : String → String) : Progress :=
  match p.opened with
  | (name, e) :: outer => { p with opened := (name, { e with text := join e.text }) :: outer }
  | [] => p

/-- Takes in one piece of the document. -/
def add (p : Progress) (place : Nat) : Token → Except Fault Progress
  | .text run =>
    match Reference.expand run with
    | .error fault => .error (.document place (.badReference fault))
    | .ok cs => .ok <| p.addText fun before =>
      if before = "" then String.ofList cs else before ++ " " ++ String.ofList cs
  | .data cs => .ok (p.addText (· ++ String.ofList cs))
  | .opening body empty => do
    let e ← Tag.toElement body
    if empty then p.attach e else .ok { p with opened := (Tag.name body, e) :: p.opened }
  | .closing name =>
    match p.opened with
    | [] => .error (.document place (.strayEnd (String.ofList name)))
    | (expected, e) :: outer =>
      if name = expected then { p with opened := outer }.attach e
      else .error (.document place (.wrongEnd (String.ofList expected) (String.ofList name)))
  | .passedOver => .ok p

/-- The root element, when the document ends at `place`. -/
def finish (p : Progress) (place : Nat) : Except Fault Element :=
  match p.opened, p.root with
  | (_, e) :: _, _ => .error (.document place (.openElement e.name))
  | [], none => .error (.document 0 .noRoot)
  | [], some root => .ok root

/-- Takes in the pieces of a document one after the other. -/
def build (p : Progress) : Lexed → Except Fault Element
  | .ended place => p.finish place
  | .broken place fault => .error (.document place fault)
  | .piece place token rest => do
    let next ← p.add place token
    next.build rest

end Progress

/-- The root element of a document. -/
def parse (text : String) : Except Fault Element := Progress.build {} (lex text)

end EntitySchema.Xml
