import EntitySchema.Text.Casing
import EntitySchema.Text.Blank
import EntitySchema.Xml.Fault

/-! Elements of a document that has been read: a name, attributes in their
order, the text directly inside and the child elements. The questions that
readers of documents ask are answered here: is an attribute set, is it true,
which attributes are allowed, what text is inside. -/

namespace EntitySchema.Xml

structure Element where
  name : String
  attributes : List (String × String) := []
  children : List Element := []
  text : String := ""
  deriving Repr, Inhabited

namespace Element

/-- The value of the first attribute of this name. -/
def attr? (e : Element) (name : String) : Option String := e.attributes.lookup name

/-- The value of an attribute, unless it is blank. -/
def filled? (e : Element) (name : String) : Option String :=
  (e.attr? name).filter fun value => !Text.isBlank value

/-- The value of an attribute without the white space around it, unless it is blank. -/
def trimmed? (e : Element) (name : String) : Option String := (e.filled? name).map Text.trim

/-- The value of an attribute, empty when it is missing. -/
def attrOrEmpty (e : Element) (name : String) : String := (e.attr? name).getD ""

/-- An attribute reads `true`, in any letter case; a missing one has the given value. -/
def flagOr (e : Element) (name : String) (missing : Bool) : Bool :=
  match e.attr? name with
  | some value => Text.sameIgnoringCase (Text.trim value) "true"
  | none => missing

/-- An attribute is there and reads `true`. -/
def flag (e : Element) (name : String) : Bool := e.flagOr name false

def childrenNamed (e : Element) (name : String) : List Element :=
  e.children.filter fun child => child.name == name

/-- The first attribute that is not allowed is a fault; `context` says where. -/
def allowOnly (e : Element) (allowed : List String) (context : String) : Except Fault Unit :=
  match e.attributes.find? fun entry => !allowed.contains entry.1 with
  | some (key, _) => .error (.attributeNotAllowed key e.name context)
  | none => .ok ()

mutual

/-- The trimmed texts of an element and of everything inside it, blank ones left out. -/
def texts : Element → List String
  | ⟨_, _, children, text⟩ =>
    if Text.isBlank text then textsOf children else Text.trim text :: textsOf children

def textsOf : List Element → List String
  | [] => []
  | e :: rest => texts e ++ textsOf rest

end

/-- All text inside an element, in one line with single spaces between the parts. -/
def content (e : Element) : String := Text.trim (" ".intercalate e.texts)

end Element

end EntitySchema.Xml
