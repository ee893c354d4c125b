import EntitySchema.Failure.Category
import EntitySchema.Schema.TypeName

/-! Why a schema or a screen document is refused although it is well-formed. -/

namespace EntitySchema

/-- A fault in a schema document. An `owner` is the phrase by which messages name
the thing at fault, such as a field and its entity. -/
inductive SchemaFault where
  | missing (key owner : String)
  | noNumber (key value owner : String)
  | unknownType (type owner : String)
  | unknownParameterType (type parameter method : String)
  | manyIndices (entity : String)
  | incompleteFilter (owner : String)
  /-- A required field that nobody sees and nothing fills in. -/
  | hiddenField (owner : String)
  | repeatedModule (name : String)
  | repeatedMethod (name : String)
  | repeatedParameter (parameter method : String)
  | smallView (view : String)
  | repeatedViewEntity (entity view : String)
  | noOptions (owner : String)
  | untargetedXref (owner : String)
  | untargetedMref (owner : String)
  | badCascade (value owner : String)
  | unknownKeyField (field entity : String)
  | unnamedKeyField (entity : String)
  | emptyKey (entity : String)
  | unnamedIndexField (index entity : String)
  | unknownIndexField (field index entity : String)
  | repeatedIndexField (field index entity : String)
  | emptyIndex (index entity : String)
  deriving DecidableEq, Repr

namespace SchemaFault

def category : SchemaFault → Category
  | unknownType .. | unknownParameterType .. => .typing
  | hiddenField .. | repeatedModule .. | repeatedMethod .. | repeatedParameter ..
  | repeatedIndexField .. => .constraint
  | unknownKeyField .. | unknownIndexField .. => .reference
  | _ => .form

def detail : SchemaFault → String
  | missing key owner => s!"{key} is missing for {owner}"
  | noNumber key value owner => s!"{key} '{value}' of {owner} is not a number"
  | unknownType type owner =>
    let names := ", ".intercalate TypeName.known
    s!"type '{type}' unknown for {owner} (known types: {names})"
  | unknownParameterType type parameter method =>
    s!"type '{type}' unknown for parameter '{parameter}' of method '{method}'"
  | manyIndices entity => s!"multiple <indices> elements in entity '{entity}'"
  | incompleteFilter owner => s!"filter set on {owner}, but filtertype or filterfield is missing"
  | hiddenField owner => s!"{owner} is hidden and not nillable, so it needs a default value"
  | repeatedModule name => s!"duplicate module '{name}'"
  | repeatedMethod name => s!"duplicate method '{name}'"
  | repeatedParameter parameter method =>
    s!"duplicate parameter '{parameter}' in method '{method}'"
  | smallView view =>
    s!"view '{view}' needs at least two entities in its 'entities' attribute"
  | repeatedViewEntity entity view => s!"entity '{entity}' is listed twice in view '{view}'"
  | noOptions owner => s!"enum_options must be ',' delimited for {owner}"
  | untargetedXref owner => s!"xref_entity or a dotted xref_field must be set for {owner}"
  | untargetedMref owner => s!"mref_name or xref_entity must be set for {owner}"
  | badCascade value owner => s!"Unknown option on xref_cascade: '{value}' for {owner}"
  | unknownKeyField field entity =>
    s!"unique field '{field}' is not known in entity '{entity}' or its ancestors"
  | unnamedKeyField entity => s!"keyfield without name in entity '{entity}'"
  | emptyKey entity => s!"missing fields on unique of '{entity}'. Expected " ++
    "<unique fields=\"field1[,field2,..]\" description=\"...\"/>"
  | unnamedIndexField index entity =>
    s!"indexfield without name in index '{index}' of entity '{entity}'"
  | unknownIndexField field index entity =>
    s!"Missing index field: {field} in index '{index}' of entity '{entity}'"
  | repeatedIndexField field index entity =>
    s!"field '{field}' listed twice in index '{index}' of entity '{entity}'"
  | emptyIndex index entity => s!"index '{index}' of entity '{entity}' has no indexfield"

end SchemaFault

/-- The elements that may stand directly inside a screen document. -/
def screenRootElements : List String := ["description", "form", "plugin", "menu", "include"]

/-- A fault in a screen document, or in the screens of a model. -/
inductive ScreenFault where
  | unknownRootElement (name : String)
  | unnamedInclude
  | unnamed (element parent : String)
  | bothRights (screen : String)
  | untypedPlugin (plugin : String)
  | formWithoutEntity (form : String)
  | unknownFormEntity (form entity : String)
  | unknownFormView (form view : String)
  | badFormLimit (form limit : String)
  | badFormOrder (form order : String)
  | incompleteFormFilter (form : String)
  | unknownFormField (form field key entity : String)
  | missingInTree (tree key : String)
  | unknownTreeEntity (tree entity : String)
  | unknownTreeField (tree field entity : String)
  | spacedName (screen : String)
  | hiddenUnknownField (form field entity : String)
  deriving DecidableEq, Repr

namespace ScreenFault

def category : ScreenFault → Category
  | bothRights .. | spacedName .. => .constraint
  | unknownFormEntity .. | unknownFormField .. | unknownTreeEntity .. | unknownTreeField ..
  | hiddenUnknownField .. => .reference
  | _ => .form

def detail : ScreenFault → String
  | unknownRootElement name =>
    let allowed := ", ".intercalate screenRootElements
    s!"Unrecognized element: <{name}> (allowed: {allowed})"
  | unnamedInclude => "include failed: no file attribute set"
  | unnamed element parent => s!"name is missing for <{element}> under '{parent}'"
  | bothRights screen => s!"cannot assign both read/write and read rights on '{screen}'"
  | untypedPlugin plugin => s!"plugin '{plugin}' has no type"
  | formWithoutEntity form => s!"entity is missing for form '{form}'"
  | unknownFormEntity form entity => s!"form '{form}': entity '{entity}' does not exist"
  | unknownFormView form view => s!"form '{form}': view '{view}' unknown (use list or edit)"
  | badFormLimit form limit => s!"form '{form}': limit '{limit}' is not a number"
  | badFormOrder form order => s!"form '{form}': sortorder '{order}' must be asc or desc"
  | incompleteFormFilter form =>
    s!"form '{form}': filter set, but filterfield or filtertype is missing"
  | unknownFormField form field key entity =>
    s!"form '{form}': cannot find field '{field}' of {key} in entity '{entity}'"
  | missingInTree tree key => s!"tree '{tree}': {key} is missing"
  | unknownTreeEntity tree entity => s!"tree '{tree}': entity '{entity}' does not exist"
  | unknownTreeField tree field entity =>
    s!"tree '{tree}': field '{field}' does not exist in entity '{entity}'"
  | spacedName screen => s!"ui element name '{screen}' contains whitespace"
  | hiddenUnknownField form field entity =>
    s!"form '{form}' hides unknown field '{field}' of entity '{entity}'"

end ScreenFault

end EntitySchema
