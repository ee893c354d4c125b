import EntitySchema.Text.Blank

/-! Lists in one attribute: entries between commas, white space around them
dropped, empty entries left out. -/

namespace EntitySchema.Text

/-- The pieces of a text between the places where `sep` stands. -/
def pieces (sep : Char) : List Char → List (List Char)
  | [] => [[]]
  | c :: rest =>
    if c = sep then [] :: pieces sep rest
    else match pieces sep rest with
      | [] => [[c]]
      | piece :: more => (c :: piece) :: more

/-- The entries of a comma-separated list. -/
def splitList (s : String) : List String :=
  ((pieces ',' s.toList).map (strip isSpace)).filterMap fun cs =>
    if cs = [] then none else some (String.ofList cs)

/-- The entries with commas between them. -/
def joinList (entries : List String) : String := ",".intercalate entries

/-- The parts of a text before and after the first `sep`, if there is one. -/
def splitAtFirst (sep : Char) (s : String) : Option (String × String) :=
  let cs := s.toList
  match cs.dropWhile (· ≠ sep) with
  | [] => none
  | _ :: rest => some (String.ofList (cs.takeWhile (· ≠ sep)), String.ofList rest)

/-- What follows the last `sep`; the whole text if there is none. -/
def afterLast (sep : Char) (s : String) : String :=
  String.ofList (s.toList.reverse.takeWhile (· ≠ sep)).reverse

end EntitySchema.Text
