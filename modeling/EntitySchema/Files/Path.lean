import EntitySchema.Text.Listing

/-! Paths: names with slashes between them. A path that begins with a slash does not
depend on the directory it is used in. -/

namespace EntitySchema.Path

/-- The names on a path, in their order. -/
def names (path : String) : List String :=
  (Text.pieces '/' path.toList).map String.ofList

/-- The names that are left on a way when each name that leads nowhere is passed over
and each pair of dots takes back the name before it. -/
def settle (names : List String) : List String :=
  names.foldl (fun way name =>
    if name = "" || name = "." then way
    else if name = ".." then way.dropLast
    else way ++ [name]) []

def isAbsolute (path : String) : Bool := path.toList.head? = some '/'

/-- The last name on a path. -/
def fileName (path : String) : String := Text.afterLast '/' path

/-- Drops from the end of a directory, which is written from right to left, slashes
and names that stand for the directory itself. A first name stays as it is. -/
def dropTrailing : List Char → List Char
  | '/' :: c :: rest => dropTrailing (c :: rest)
  | '.' :: '/' :: c :: rest => dropTrailing (c :: rest)
  | cs => cs

/-- The directory that a path to a file leads through; empty if the path is a name
alone. -/
def parent (path : String) : String :=
  match path.toList.reverse.dropWhile (· ≠ '/') with
  | [] => ""
  | ['/'] => "/"
  | _ :: rest => String.ofList (dropTrailing rest).reverse

/-- The path of a file that is named from a directory. -/
def join (directory file : String) : String :=
  if isAbsolute file then file
  else if directory.isEmpty || directory.toList.getLast? = some '/' then directory ++ file
  else directory ++ "/" ++ file

/-- What follows the last dot in the name of a file. A dot that begins the name is
part of it. -/
def extension? (path : String) : Option String :=
  let name := (fileName path).toList
  let stem := ((name.reverse.dropWhile (· ≠ '.')).drop 1).reverse
  if stem = [] then none else some (Text.afterLast '.' (fileName path))

end EntitySchema.Path
