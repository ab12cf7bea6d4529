/-
Files held in memory, and how a path leads to them. A path is followed one step at a time from the
working directory, or from the root if it starts with a slash, so the first step that cannot be
taken decides the error.
-/
import Lox.Command.Source

namespace Lox

/-- What a place in a file tree holds. -/
inductive Entry
  | file (bytes : ByteArray)
  | directory

/-- A place in a file tree: the names on the way to it, innermost first. The root has none. -/
abbrev Place := List String

/-- A file tree and the directory that relative paths start from. -/
structure FileTree where
  entries : List (Place × Entry)
  workingDirectory : Place

/-- The steps of a path: its names, and a last step to the same place if a slash ends it. -/
def pathSteps (path : String) : List String :=
  (path.splitOn "/").filter (· != "") ++ if path.endsWith "/" then ["."] else []

/-- The greatest length of a name in bytes. -/
def maxName : Nat := 255

/-- The greatest length of a path in bytes. -/
def maxPath : Nat := 4095

namespace FileTree

/-- What is at a place. A place on the way to an entry is a directory. -/
def entry? (t : FileTree) (p : Place) : Option Entry :=
  match t.entries.lookup p with
  | some e => some e
  | none => if t.entries.any fun e => p.isSuffixOf e.1 then some .directory else none

/-- What the steps lead to from a directory. -/
def follow (t : FileTree) (directory : Place) : List String → Except SystemError Entry
  | [] => .ok .directory
  | "." :: steps => t.follow directory steps
  | ".." :: steps => t.follow directory.tail steps
  | name :: steps =>
    if name.utf8ByteSize > maxName then .error .nameTooLong
    else
      match t.entry? (name :: directory) with
      | none => .error .noSuchFile
      | some .directory => t.follow (name :: directory) steps
      | some (.file bytes) => if steps = [] then .ok (.file bytes) else .error .notDirectory

/-- What a path leads to. -/
def find (t : FileTree) (path : String) : Except SystemError Entry :=
  if path.isEmpty then .error .noSuchFile
  else if path.utf8ByteSize > maxPath then .error .nameTooLong
  else t.follow (if path.startsWith "/" then [] else t.workingDirectory) (pathSteps path)

/-- Opens and reads the file a path leads to. -/
def read (t : FileTree) (path : String) : Except SourceError ByteArray :=
  match t.find path with
  | .ok (.file bytes) => .ok bytes
  | .ok .directory => .error (.cannotRead .isDirectory)
  | .error e => .error (.cannotOpen e)

/-- Puts an entry in a place, instead of what was there. -/
def put (t : FileTree) (p : Place) (e : Entry) : FileTree :=
  { t with entries := (p, e) :: t.entries.filter (·.1 != p) }

/-! ## The surroundings of a program -/

/-- The directories that hold a system together, below the root. -/
def systemDirectories : List String :=
  ["bin", "boot", "dev", "etc", "home", "lib", "lib64", "media", "mnt", "opt", "proc", "root", "run",
    "sbin", "srv", "sys", "tmp", "usr", "var"]

/-- The directory a program works in: below the one for temporary files, under a name that no path
can spell. -/
def workplace : Place := ["", "tmp"]

/-- The tree around a program: its files, by paths from the directory it works in, the empty device,
and its input as a file. -/
def around (files : List (String × Entry)) (input : ByteArray) : FileTree where
  entries :=
    files.map (fun (name, e) => ((pathSteps name).reverse ++ workplace, e)) ++
      [(["null", "dev"], .file .empty), (["stdin", "dev"], .file input), (workplace, .directory)] ++
      systemDirectories.map fun name => ([name], .directory)
  workingDirectory := workplace

end FileTree

end Lox
