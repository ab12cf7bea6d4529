/-
The whole command line as a function of its arguments, a file tree, and an input.
-/
import Lox.Command.FileTree
import Lox.Command.Report

namespace Lox

/-- The program's name and version. -/
def versionText : String := "rox 0.1.0\n"

def helpText : String :=
  unlines
    ["Lox language interpreter", "", "Usage: rox [OPTIONS] [COMMAND]", "", "Commands:",
      "  tokenize  Tokenizes input from a file, printing each token",
      "  parse     Parses a program and prints its syntax tree",
      "  run       Runs input from a file as a Lox program",
      "  repl      Starts an interactive prompt (the default)", "", "Options:",
      "      --log                    Enable logging to app.log",
      "      --max-depth <MAX_DEPTH>  Maximum nested call depth [default: 4096]",
      "  -h, --help                   Print help", "  -V, --version                Print version"]

def versionReport : Report := ⟨0, versionText, ""⟩

def helpReport : Report := ⟨0, helpText, ""⟩

def misuseReport : Report := ⟨exitMisuse, "", "error: invalid arguments; try '--help'\n"⟩

/-- The file that `--log` makes. -/
def logName : String := "app.log"

/-- The place of the log. -/
def FileTree.logPlace (t : FileTree) : Place := logName :: t.workingDirectory

/-- The tree with an empty log in it, unless a directory stands in its place. -/
def FileTree.withLog (t : FileTree) : Except SystemError FileTree :=
  match t.entry? t.logPlace with
  | some .directory => .error .isDirectory
  | _ => .ok (t.put t.logPlace (.file .empty))

/-- What a command line does: its report, and the files it makes. -/
structure Outcome where
  report : Report
  created : List String

/-- Carries out a command on the files of a tree. -/
def Command.report (c : Command) (fuel maxDepth : Nat) (clock : Clock) (t : FileTree)
    (input : ByteArray) : Option Report :=
  let onSource (name : String) (f : String → Option Report) : Option Report :=
    match sourceText (t.read name) with
    | .ok source => f source
    | .error e => some (unreadable name e)
  match c with
  | .tokenize name json => onSource name fun source => some (tokenizeReport json source)
  | .parse name => onSource name fun source => some (parseReport source)
  | .run name => onSource name (runReport fuel maxDepth clock)
  | .prompt => promptReport fuel maxDepth clock input

/-- The report when the log cannot be made. -/
def logFailure (e : SystemError) : Report :=
  ⟨exitInput, "",
    "Error: Failed to create " ++ logName ++ "\n\nCaused by:\n    " ++ e.message ++ "\n"⟩

def Invocation.outcome (i : Invocation) (fuel : Nat) (clock : Clock) (t : FileTree)
    (input : ByteArray) : Option Outcome :=
  if i.log then
    match t.withLog with
    | .error e => some ⟨logFailure e, []⟩
    | .ok logged =>
      (i.command.report fuel i.maxDepth clock logged input).map fun r =>
        ⟨r, if (t.entry? t.logPlace).isSome then [] else [logName]⟩
  else (i.command.report fuel i.maxDepth clock t input).map fun r => ⟨r, []⟩

/-- The outcome of a command line, if it ends in `fuel` evaluation steps per text. -/
def commandLine (fuel : Nat) (clock : Clock) (t : FileTree) (input : ByteArray)
    (args : List String) : Option Outcome :=
  match Arguments.request args with
  | .invoke i => i.outcome fuel clock t input
  | .version => some ⟨versionReport, []⟩
  | .help => some ⟨helpReport, []⟩
  | .misuse => some ⟨misuseReport, []⟩

end Lox
