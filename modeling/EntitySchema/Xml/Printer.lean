import EntitySchema.Xml.Document

/-! The written form of elements: a start tag with its attributes in double quotes,
the text, the children and an end tag. The five characters that mean something in
markup are written as references. Space may stand between tags and around text;
`Written` allows any of it, and `print` puts none. -/

namespace EntitySchema.Xml

/-! ### What can be written -/

/-- A letter or an underscore, with which a name begins. -/
def isNameStart (c : Char) : Bool := c.isAlpha || c = '_'

def isNameChar (c : Char) : Bool := c.isAlphanum || c = '_' || c = '-' || c = '.'

/-- A name without a namespace, in ASCII. -/
def isName (name : String) : Bool :=
  match name.toList with
  | [] => false
  | first :: rest => isNameStart first && rest.all isNameChar

/-- No space at either end. -/
def isTight (cs : List Char) : Bool := cs.head?.all (!isSpace ·) && cs.getLast?.all (!isSpace ·)

/-- An element that can be written, with everything inside it: there are names where
names are due, no two attributes of one name, and no space around its text, which
would not be read. Values of attributes may be anything. -/
inductive Element.Printable : Element → Prop
  | intro {e : Element} (name : isName e.name) (keys : ∀ entry ∈ e.attributes, isName entry.1)
      (distinct : (e.attributes.map (·.1)).Nodup) (text : isTight e.text.toList)
      (children : ∀ child ∈ e.children, Printable child) : Printable e

/-! ### Tags -/

/-- A character as it is written in text and in values of attributes. -/
def escape (c : Char) : List Char :=
  if c = '&' then "&amp;".toList
  else if c = '<' then "&lt;".toList
  else if c = '>' then "&gt;".toList
  else if c = '"' then "&quot;".toList
  else if c = '\'' then "&apos;".toList
  else [c]

def escapeAll (cs : List Char) : List Char := cs.flatMap escape

namespace Element

def printAttribute (entry : String × String) : List Char :=
  ' ' :: (entry.1.toList ++ '=' :: '"' :: (escapeAll entry.2.toList ++ ['"']))

/-- What stands between the brackets of the start tag. -/
def startBody (e : Element) : List Char := e.name.toList ++ e.attributes.flatMap printAttribute

def startTag (e : Element) : List Char := '<' :: (e.startBody ++ ['>'])

def endTag (e : Element) : List Char := '<' :: '/' :: (e.name.toList ++ ['>'])

/-! ### Elements -/

/-- The characters write the elements one after the other, with any space before and
after the text of an element and after its end tag. -/
inductive Written : List Element → List Char → Prop
  | nil : Written [] []
  | cons {e : Element} {es : List Element} {before after inside gap rest : List Char}
      (hbefore : before.all isSpace) (hafter : after.all isSpace) (hgap : gap.all isSpace)
      (hinside : Written e.children inside) (hrest : Written es rest) :
      Written (e :: es)
        (e.startTag ++ (before ++ escapeAll e.text.toList ++ after) ++ inside ++ e.endTag ++ gap ++
          rest)

/-- The text is a document with this root element. -/
def IsDocument (e : Element) (text : String) : Prop :=
  ∃ gap cs, gap.all isSpace ∧ Written [e] cs ∧ text = String.ofList (gap ++ cs)

mutual

/-- The written form without any space that is not needed. -/
def print : Element → List Char
  | ⟨name, attributes, children, text⟩ =>
    startTag ⟨name, attributes, children, text⟩ ++ escapeAll text.toList ++ printAll children ++
      endTag ⟨name, attributes, children, text⟩

def printAll : List Element → List Char
  | [] => []
  | e :: rest => print e ++ printAll rest

end

end Element

end EntitySchema.Xml
