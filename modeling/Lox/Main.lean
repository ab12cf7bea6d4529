/-
The program that is run from a command line: what `Lox.commandLine` says of files in memory, done to
the files and streams of the system. A program is run a stretch of steps at a time. The clock is
read before each stretch, and what was printed is written out behind it.
-/
import Std.Time.DateTime.Timestamp
import Lox.Command.Outcome

namespace Lox.Terminal

/-- The number of steps between two looks at the outside. -/
def stretch : Nat := 10000

/-- The time, in seconds since the beginning of 1970. -/
def now : IO Float := do
  let t ← Std.Time.Timestamp.now
  pure (Float.ofInt t.toNanosecondsSinceUnixEpoch.val / 1000000000)

def write (bytes : ByteArray) : IO Unit := do
  let out ← IO.getStdout
  out.write bytes
  out.flush

/-- Takes an evaluation to its end. -/
partial def finish (s : Eval.State) : IO (Eval.Outcome × Interpreter) := do
  let clock := Clock.stopped (← now)
  let s := Eval.State.run stretch { s with it := { s.it with clock } }
  let (bytes, sink) := s.it.sink.drain
  unless bytes.isEmpty do write bytes
  let it := { s.it with sink }
  match s.outcome? with
  | some o => pure (o, it)
  | none => finish { s with it }

/-- Writes out what a run ended with, and gives its exit code. -/
def report (result : Except RunError Unit) : IO Nat := do
  let (code, message) := runErrorReport result
  IO.eprint message
  pure code

/-- Runs a text in a session. -/
def run (s : Session) (source : String) : IO (Nat × Session) := do
  match s.check source with
  | (.error errors, s) => pure (← report (.error (.rejected errors)), s)
  | (.ok p, s) =>
    let (o, it) ← finish (s.launch p)
    let (result, s) := s.settle p o it
    pure (← report result, s)

/-- Writes out a report, and gives its exit code. -/
def deliver (r : Report) : IO Nat := do
  IO.print r.stdout
  IO.eprint r.stderr
  pure r.code

/-! ## Files and input -/

/-- The system's words for an error, with its number. -/
def systemError (e : IO.Error) : SystemError :=
  let worded (code : UInt32) (details : String) : SystemError :=
    .other (details ++ " (os error " ++ toString code ++ ")")
  match e with
  | .noFileOrDirectory _ code details => worded code details
  | .permissionDenied _ code details => worded code details
  | .inappropriateType _ code details => worded code details
  | .invalidArgument _ code details => worded code details
  | .otherError code details => worded code details
  | e => .other (toString e)

def readSource (name : String) : IO (Except SourceError ByteArray) := do
  match ← (IO.FS.Handle.mk name .read).toBaseIO with
  | .error e => pure (.error (.cannotOpen (systemError e)))
  | .ok handle =>
    match ← handle.readBinToEnd.toBaseIO with
    | .error e => pure (.error (.cannotRead (systemError e)))
    | .ok bytes => pure (.ok bytes)

/-- Does something with the text of a file. -/
def onSource (name : String) (act : String → IO Nat) : IO Nat := do
  match sourceText (← readSource name) with
  | .ok source => act source
  | .error e => deliver (unreadable name e)

/-- Reads a line of input, after the part already read, newest first. -/
partial def readLine (input : IO.FS.Stream) (line : List UInt8) :
    IO (Option (List UInt8)) := do
  match (← input.read 1).data.toList with
  | [] => pure (if line = [] then none else some line.reverse)
  | b :: _ => if b = 10 then pure (some (endedLine line)) else readLine input (b :: line)

/-- Runs the lines of the input one after another. -/
partial def prompt (s : Session) (input : IO.FS.Stream) : IO Nat := do
  write promptMark.toUTF8
  match ← readLine input [] with
  | none => deliver ⟨0, "\n", ""⟩
  | some line =>
    match Utf8.decode (ByteArray.mk line.toArray) with
    | .error _ => deliver ⟨exitInput, "", inputError⟩
    | .ok source => prompt (← run s source).2 input

/-- Makes the log. -/
def createLog : IO (Except SystemError Unit) := do
  match ← (IO.FS.Handle.mk logName .write).toBaseIO with
  | .ok _ => pure (.ok ())
  | .error e => pure (.error (systemError e))

/-! ## Commands -/

def carryOut (c : Command) (maxDepth : Nat) : IO Nat := do
  let session := freshSession maxDepth (.stopped 0)
  match c with
  | .tokenize name json => onSource name fun source => deliver (tokenizeReport json source)
  | .parse name => onSource name fun source => deliver (parseReport source)
  | .run name => onSource name fun source => do pure (← run session source).1
  | .prompt => prompt session (← IO.getStdin)

def invoke (i : Invocation) : IO Nat := do
  if i.log then
    match ← createLog with
    | .error e => deliver (logFailure e)
    | .ok () => carryOut i.command i.maxDepth
  else carryOut i.command i.maxDepth

def answer : Request → IO Nat
  | .invoke i => invoke i
  | .version => deliver versionReport
  | .help => deliver helpReport
  | .misuse => deliver misuseReport

end Lox.Terminal

def main (args : List String) : IO UInt32 := do
  pure (UInt32.ofNat (← Lox.Terminal.answer (Lox.Arguments.request args)))
