import EntitySchema.Files
import EntitySchema.Files.Path

/-! A tree of files below a working directory. A path is followed name by name, from
directory to directory; what lies outside the working directory is empty. -/

namespace EntitySchema

/-- Files and directories, each by the names on the way to it from the working
directory. -/
structure FileTree where
  files : List (List String × ByteArray)
  directories : List (List String)

/-- A place that a path leads to. -/
inductive Place where
  /-- A directory that is not in the tree. -/
  | outside
  | directory (names : List String)
  | file (bytes : ByteArray)

namespace FileTree

/-- The tree without files. -/
def empty : FileTree := ⟨[], []⟩

/-- Adds a file at a path, with the directories that the path leads through. It takes
the place of a file that is there. -/
def add (t : FileTree) (path : String) (bytes : ByteArray) : FileTree :=
  let names := Path.names path
  let directories := (List.range names.length).map fun n => Path.settle (names.take n)
  ⟨(Path.settle names, bytes) :: t.files, directories ++ t.directories⟩

/-- The tree with these files, each given by its path. -/
def ofPaths (files : List (String × ByteArray)) : FileTree :=
  files.foldl (fun t (path, bytes) => t.add path bytes) empty

/-- What is found under these names. -/
def lookup (t : FileTree) (names : List String) : Except FileFault Place :=
  match t.files.lookup names with
  | some bytes => .ok (.file bytes)
  | none => if t.directories.contains names then .ok (.directory names) else .error .missing

/-- Goes on from a place to the next name. -/
def step (t : FileTree) : Place → String → Except FileFault Place
  | .file _, _ => .error .notDirectory
  | place, "" | place, "." => .ok place
  | .outside, ".." | .directory [], ".." => .ok .outside
  | .directory names, ".." => .ok (.directory names.dropLast)
  | .outside, _ => .error .missing
  | .directory names, name => t.lookup (names ++ [name])

/-- The place that a path leads to from the working directory. -/
def follow (t : FileTree) (path : String) : Except FileFault Place :=
  if path.isEmpty then .error .missing
  else (Path.names path).foldlM t.step (if Path.isAbsolute path then .outside else .directory [])

/-- The text at a path. -/
def read (t : FileTree) : Files := fun path => do
  match ← t.follow path with
  | .file bytes => Files.decode bytes
  | .outside | .directory _ => .error .directory

end FileTree

end EntitySchema
