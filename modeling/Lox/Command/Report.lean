/-
What the commands print and how they exit: 65 for a program with static errors, 70 for one that
fails when it runs, 74 for a file that cannot be read, 1 for a prompt whose input is not text.
-/
import Lox.Command.Arguments
import Lox.Command.Source
import Lox.Session
import Lox.Syntax.Text
import Lox.Token.Text

namespace Lox

/-- Exit code and printed text of a command. -/
structure Report where
  code : Nat
  stdout : String
  stderr : String

def exitStatic : Nat := 65
def exitRuntime : Nat := 70
def exitSource : Nat := 74
def exitInput : Nat := 1
def exitMisuse : Nat := 2

/-- Texts as lines. -/
def unlines (texts : List String) : String := String.join (texts.map (· ++ "\n"))

def staticReport (errors : List StaticError) : String := unlines (errors.map StaticError.text)

/-- The text of the bytes a program printed. -/
def printedText (bytes : ByteArray) : String := (String.fromUTF8? bytes).getD ""

/-- The report on a file that cannot be read. -/
def unreadable (name : String) (e : SourceError) : Report :=
  ⟨exitSource, "", e.message name ++ "\n"⟩

/-- Prints the tokens of a text, one a line or as JSON; lexical errors stop nothing. -/
def tokenizeReport (json : Bool) (source : String) : Report :=
  let items := scan source
  let tokens := Item.tokens items
  let errors := Item.errors items
  let stdout :=
    if json then (Json.list (tokens.map Token.json)).pretty "" ++ "\n"
    else unlines (tokens.map Token.text)
  ⟨if errors.isEmpty then 0 else exitStatic, stdout, staticReport errors⟩

/-- Prints the syntax tree of a text, one statement a line. -/
def parseReport (source : String) : Report :=
  let items := scan source
  match Item.errors items, (Parse.program 0 (Item.tokens items)).program with
  | [], .ok statements => ⟨0, unlines (statements.map Stmt.text), ""⟩
  | lexical, .ok _ => ⟨exitStatic, "", staticReport lexical⟩
  | lexical, .error syntactic => ⟨exitStatic, "", staticReport (lexical ++ syntactic)⟩

/-- The exit code and the message of a run. -/
def runErrorReport : Except RunError Unit → Nat × String
  | .ok () => (0, "")
  | .error (.rejected errors) => (exitStatic, staticReport errors)
  | .error (.failed e) => (exitRuntime, e.text ++ "\n")

/-- A session that prints without a limit. -/
def freshSession (maxDepth : Nat) (clock : Clock) : Session :=
  .start (.start maxDepth .unlimited clock)

/-- Takes what was printed out of a session. -/
def Session.drain (s : Session) : String × Session :=
  let (bytes, sink) := s.interpreter.sink.drain
  (printedText bytes, { s with interpreter := { s.interpreter with sink } })

/-- Runs a text as a program, if it ends in `fuel` steps. -/
def runReport (fuel maxDepth : Nat) (clock : Clock) (source : String) : Option Report :=
  ((freshSession maxDepth clock).run fuel source).map fun (result, s) =>
    let (code, stderr) := runErrorReport result
    ⟨code, s.drain.1, stderr⟩

/-! ## The prompt -/

/-- The prompt itself. -/
def promptMark : String := "> "

def inputError : String :=
  "Error: Failed to read from stdin\n\nCaused by:\n    stream did not contain valid UTF-8\n"

/-- A line read in reverse; a carriage return before the line end belongs to the end. -/
def endedLine : List UInt8 → List UInt8
  | 13 :: line => line.reverse
  | line => line.reverse

/-- The lines of an input without their ends, after the part of a line already read, newest first.
A last line may have no end. -/
def inputLines (line : List UInt8) : List UInt8 → List (List UInt8)
  | [] => if line = [] then [] else [line.reverse]
  | b :: bs => if b = 10 then endedLine line :: inputLines [] bs else inputLines (b :: line) bs

/-- Runs the lines one after another in one session, each after a prompt. Errors are reported and do
not end the prompt; input that is not text does. -/
def promptLines (fuel : Nat) (s : Session) (stdout stderr : String) :
    List (List UInt8) → Option Report
  | [] => some ⟨0, stdout ++ promptMark ++ "\n", stderr⟩
  | line :: lines =>
    match Utf8.decode (ByteArray.mk line.toArray) with
    | .error _ => some ⟨exitInput, stdout ++ promptMark, stderr ++ inputError⟩
    | .ok source =>
      match s.run fuel source with
      | none => none
      | some (result, s) =>
        let (printed, s) := s.drain
        promptLines fuel s (stdout ++ promptMark ++ printed) (stderr ++ (runErrorReport result).2)
          lines

/-- Runs an input line by line. -/
def promptReport (fuel maxDepth : Nat) (clock : Clock) (input : ByteArray) : Option Report :=
  promptLines fuel (freshSession maxDepth clock) "" "" (inputLines [] input.data.toList)

end Lox
