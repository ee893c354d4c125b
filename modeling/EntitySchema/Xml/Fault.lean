/-! Why a document cannot be read, and the words in which each cause is told. -/

namespace EntitySchema.Xml

/-- What is wrong with a reference such as `&amp;` or `&#65;`. Places are
counted in bytes of the text it stands in. -/
inductive ReferenceFault where
  /-- No semicolon follows the ampersand at `first`. -/
  | unterminated (first last : Nat)
  /-- The name between the ampersand and the semicolon means nothing. -/
  | unknownName (first last : Nat) (name : String)
  | signedNumber
  | missingNumber
  | badDigit
  | numberTooLarge
  | zero
  /-- The number is no character. -/
  | noCharacter (number : Nat)
  deriving DecidableEq, Repr

def ReferenceFault.message : ReferenceFault → String
  | unterminated first last =>
    s!"Error while escaping character at range {first}..{last}: Cannot find ';' after '&'"
  | unknownName first last name => s!"at {first}..{last}: unrecognized entity `{name}`"
  | signedNumber => "invalid character reference: unexpected number sign"
  | missingNumber => "invalid character reference: cannot parse integer from empty string"
  | badDigit => "invalid character reference: invalid digit found in string"
  | numberTooLarge => "invalid character reference: number too large to fit in target type"
  | zero => "invalid character reference: 0x0 character is not permitted in XML"
  | noCharacter number => s!"invalid character reference: `{number}` is not a valid codepoint"

/-- What is wrong with the attributes of a tag. Places are counted in bytes from
the start of the tag's name. -/
inductive AttributeFault where
  | missingEquals (place : Nat)
  | missingValue (place : Nat)
  | unquotedValue (place : Nat)
  | openQuote (place : Nat) (quote : Char)
  | repeated (place earlier : Nat)
  deriving DecidableEq, Repr

def AttributeFault.message : AttributeFault → String
  | missingEquals place =>
    s!"position {place}: attribute key must be directly followed by `=` or space"
  | missingValue place => s!"position {place}: `=` must be followed by an attribute value"
  | unquotedValue place =>
    s!"position {place}: attribute value must be enclosed in `\"` or `'`"
  | openQuote place quote =>
    s!"position {place}: missing closing quote `{quote}` in attribute value"
  | repeated place earlier =>
    s!"position {place}: duplicated attribute, previous declaration at position {earlier}"

/-- Why a text is no document. -/
inductive DocumentFault where
  | unknownMarkup
  | openInstruction
  | openComment
  | openDoctype
  | openCharacterData
  | openTag
  | unnamedDoctype
  /-- An end tag that does not close the innermost open element. -/
  | wrongEnd (expected found : String)
  /-- An end tag with no element open. -/
  | strayEnd (found : String)
  | badReference (fault : ReferenceFault)
  | openElement (name : String)
  | noRoot
  deriving DecidableEq, Repr

def DocumentFault.message : DocumentFault → String
  | unknownMarkup => "syntax error: unknown or missed symbol in markup"
  | openInstruction =>
    "syntax error: processing instruction or xml declaration not closed: `?>` not found before end of input"
  | openComment => "syntax error: comment not closed: `-->` not found before end of input"
  | openDoctype => "syntax error: DOCTYPE not closed: `>` not found before end of input"
  | openCharacterData => "syntax error: CDATA not closed: `]]>` not found before end of input"
  | openTag => "syntax error: tag not closed: `>` not found before end of input"
  | unnamedDoctype =>
    "ill-formed document: `<!DOCTYPE>` declaration does not contain a name of a document type"
  | wrongEnd expected found =>
    s!"ill-formed document: expected `</{expected}>`, but `</{found}>` was found"
  | strayEnd found => s!"ill-formed document: close tag `</{found}>` does not match any open tag"
  | badReference fault => fault.message
  | openElement name => s!"unclosed element <{name}>"
  | noRoot => "document has no root element"

/-- Why a document, or one of its elements, is refused. -/
inductive Fault where
  /-- The text is no document; `position` counts bytes from its start. -/
  | document (position : Nat) (fault : DocumentFault)
  | attributes (fault : AttributeFault)
  | value (key : String) (fault : ReferenceFault)
  | secondRoot (name : String)
  | attributeNotAllowed (key element context : String)
  deriving DecidableEq, Repr

def Fault.detail : Fault → String
  | document _ fault => fault.message
  | attributes fault => s!"malformed attribute: {fault.message}"
  | value key fault => s!"malformed value of '{key}': {fault.message}"
  | secondRoot name => s!"document has more than one root element (found <{name}>)"
  | attributeNotAllowed key element context =>
    s!"attribute '{key}' not allowed for <{element}> {context}"

end EntitySchema.Xml
