import EntitySchema.Options

/-! Settings: what an option file says, whatever its format, and the options that
settings stand for. A setting that is not known is passed over; one that is known
has to be of its type and must not stand twice. -/

namespace EntitySchema

/-- The value of a setting. -/
inductive Setting where
  | text (s : String)
  /-- A text that is no value at all if it is empty. -/
  | word (s : String)
  | list (items : List Setting)
  | table (members : List (String × Setting))
  /-- A value with a name before it. -/
  | tagged (name : String) (value : Setting)
  /-- A value of another type. -/
  | other
  deriving Repr, Inhabited

namespace Setting

/-- Words that say that there is no value. -/
def nullWords : List String := ["", "~", "null", "Null", "NULL"]

/-- One of a few names: a text, the only member of a table if it holds nothing, or the name
before a value if that is none. -/
def choice? : Setting → Option String
  | text s | word s => some s
  | table [(name, list [])] | table [(name, table [])] => some name
  | tagged name (word s) => if nullWords.contains s then some name else none
  | _ => none

/-- The text of an item in a list. -/
def item? : Setting → Option String
  | text s | word s | tagged _ (text s) | tagged _ (word s) => some s
  | _ => none

/-- A list of texts. No value stands for the empty list. -/
def texts? : Setting → Option (List String)
  | list items | tagged _ (list items) => items.mapM item?
  | word "" | tagged _ (word "") => some []
  | _ => none

end Setting

namespace Options

/-- The value of a setting that may be missing, read in its type. -/
def setting? (settings : List (String × Setting)) (name : String) (read : Setting → Option α)
    (missing : α) : Option α :=
  match settings.filter (·.1 = name) with
  | [] => some missing
  | [(_, value)] => read value
  | _ => none

/-- The options that settings stand for. Names are taken as they are, without
regard for letter case or short names. -/
def ofSettings? (settings : List (String × Setting)) : Option Options := do
  pure {
    dialect := ← setting? settings "dialect" (fun s => do Dialect.ofName? (← s.choice?)) .generic
    mapping :=
      ← setting? settings "mapping" (fun s => do Mapping.ofName? (← s.choice?)) .subclassPerTable
    authorizable := ← setting? settings "authorizable" Setting.texts? [] }

end Options

end EntitySchema
