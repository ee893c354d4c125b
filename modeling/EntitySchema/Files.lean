/-! Files, as far as a compilation needs them: the text at a path, or the reason why
it cannot be had. -/

namespace EntitySchema

/-- Why the text at a path cannot be had. -/
inductive FileFault where
  | missing
  /-- Something on the way to the file is not a directory. -/
  | notDirectory
  | directory
  /-- The bytes of the file are not UTF-8. -/
  | notText
  /-- Any other reason, in the words of the system. -/
  | system (reason : String)
  deriving DecidableEq, Repr

namespace FileFault

def message : FileFault → String
  | missing => "No such file or directory (os error 2)"
  | notDirectory => "Not a directory (os error 20)"
  | directory => "Is a directory (os error 21)"
  | notText => "stream did not contain valid UTF-8"
  | system reason => reason

end FileFault

/-- Where texts come from: for every path its text, or a fault. -/
abbrev Files := String → Except FileFault String

/-- The text that the bytes of a file stand for. -/
def Files.decode (bytes : ByteArray) : Except FileFault String :=
  match String.fromUTF8? bytes with
  | some s => .ok s
  | none => .error .notText

end EntitySchema
