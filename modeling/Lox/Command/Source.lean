/-
Source files: what keeps a file from being read as text.
-/
import Lox.Text.Quoted
import Lox.Text.Utf8

namespace Lox

/-- Why the system would not give a file's bytes. -/
inductive SystemError
  | noSuchFile
  | notDirectory
  | isDirectory
  | nameTooLong
  /-- Any other reason, in the system's words. -/
  | other (reason : String)

def SystemError.message : SystemError → String
  | noSuchFile => "No such file or directory (os error 2)"
  | notDirectory => "Not a directory (os error 20)"
  | isDirectory => "Is a directory (os error 21)"
  | nameTooLong => "File name too long (os error 36)"
  | other reason => reason

/-- Why a file could not be read as text. -/
inductive SourceError
  | cannotOpen (e : SystemError)
  | cannotRead (e : SystemError)
  | notText (f : Utf8.Fault)

/-- The message about the file of the given name. -/
def SourceError.message (name : String) : SourceError → String
  | cannotOpen e => "Failed to open file " ++ quotedName name ++ ": " ++ e.message
  | cannotRead e => "Failed to read file " ++ quotedName name ++ ": " ++ e.message
  | notText f => "File " ++ quotedName name ++ " is not valid UTF-8: " ++ f.message

/-- A file's bytes as text. -/
def sourceText (bytes : Except SourceError ByteArray) : Except SourceError String :=
  match bytes with
  | .ok bytes => (Utf8.decode bytes).mapError .notText
  | .error e => .error e

end Lox
