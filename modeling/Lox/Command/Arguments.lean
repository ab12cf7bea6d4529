/-
Command line arguments. Options may stand before the command or after it; `--log` and `--max-depth`
belong to every command and may be given once in either place, the later place winning. Behind `--`
everything is a file name. Arguments are read from left to right, and the first that cannot be
accepted, or that asks for the version or for help, decides.
-/
import Lox.Interpreter

namespace Lox

/-- What is to be done. -/
inductive Command
  | tokenize (file : String) (json : Bool)
  | parse (file : String)
  | run (file : String)
  | prompt

/-- A command with the options that belong to all commands. -/
structure Invocation where
  command : Command
  log : Bool
  maxDepth : Nat

/-- What the arguments ask for. -/
inductive Request
  | invoke (i : Invocation)
  | version
  | help
  /-- The arguments make no sense. -/
  | misuse

namespace Arguments

/-- The commands by name. -/
inductive Verb
  | tokenize | parse | run | prompt
  deriving DecidableEq

def verb? : String → Option Verb
  | "tokenize" => some .tokenize
  | "parse" => some .parse
  | "run" => some .run
  | "repl" => some .prompt
  | _ => none

/-- The options and file read so far in one place. -/
structure Given where
  log : Bool
  depth : Option Nat
  json : Bool
  file : Option String

def Given.nothing : Given := ⟨false, none, false, none⟩

/-- A count that fits in 64 bits: digits, possibly behind a plus sign. -/
def count? (s : String) : Option Nat :=
  let ds :=
    match s.toList with
    | '+' :: ds => ds
    | ds => ds
  let n := Nat.ofDigitChars 10 ds 0
  if ds ≠ [] ∧ ds.all Char.isDigit ∧ n < UInt64.size then some n else none

def Given.setDepth (g : Given) (value : String) : Option Given :=
  match g.depth, count? value with
  | none, some n => some { g with depth := some n }
  | _, _ => none

def Given.setLog (g : Given) : Option Given := if g.log then none else some { g with log := true }

def Given.setJson (g : Given) : Option Given :=
  if g.json then none else some { g with json := true }

/-- A file name cannot be empty. -/
def Given.setFile (g : Given) (name : String) : Option Given :=
  match g.file with
  | none => if name.isEmpty then none else some { g with file := some name }
  | some _ => none

/-- What an argument is, by its spelling. -/
inductive Word
  | separator
  | log
  | depth
  | depthIs (value : String)
  | json
  | version
  | help
  /-- An option that does not exist. -/
  | unknown
  | plain (text : String)

def word (s : String) : Word :=
  match s with
  | "--" => .separator
  | "--log" => .log
  | "--max-depth" => .depth
  | "--json" => .json
  | "--version" => .version
  | "--help" => .help
  | s =>
    match s.toList with
    | ['-'] => .plain s
    | '-' :: '-' :: cs =>
      if "max-depth=".toList.isPrefixOf cs then
        .depthIs (String.ofList (cs.drop "max-depth=".length))
      else .unknown
    | '-' :: 'V' :: _ => .version
    | '-' :: 'h' :: _ => .help
    | '-' :: _ => .unknown
    | _ => .plain s

/-- The invocation of a command with all its arguments; what is given behind the command counts
before what is given in front of it. -/
def invocation (v : Verb) (front behind : Given) : Request :=
  let invoke (command : Command) : Request :=
    .invoke
      { command
        log := front.log || behind.log
        maxDepth := (behind.depth.or front.depth).getD defaultMaxDepth }
  match v, behind.file with
  | .tokenize, some file => invoke (.tokenize file behind.json)
  | .parse, some file => invoke (.parse file)
  | .run, some file => invoke (.run file)
  | .prompt, _ => invoke .prompt
  | _, none => .misuse

/-- Does the command read a file? -/
def Verb.takesFile (v : Verb) : Bool := v ≠ .prompt

/-- Takes a file name for a command that reads a file. -/
def Given.setFileFor (g : Given) (v : Verb) (name : String) : Option Given :=
  if v.takesFile then g.setFile name else none

/-- The arguments behind `--`, which are file names whatever they look like. -/
def filesOnly (v : Verb) (front : Given) : Given → List String → Request
  | g, [] => invocation v front g
  | g, a :: as =>
    match g.setFileFor v a with
    | some g => filesOnly v front g as
    | none => .misuse

/-- The arguments behind a command. -/
def behindCommand (v : Verb) (front : Given) : Given → List String → Request
  | g, [] => invocation v front g
  | g, a :: as =>
    let next (g? : Option Given) : Request :=
      match g? with
      | some g => behindCommand v front g as
      | none => .misuse
    match word a with
    | .separator => filesOnly v front g as
    | .log => next g.setLog
    | .depth =>
      match as with
      | value :: as =>
        match g.setDepth value with
        | some g => behindCommand v front g as
        | none => .misuse
      | [] => .misuse
    | .depthIs value => next (g.setDepth value)
    | .json => if v = .tokenize then next g.setJson else .misuse
    | .help => .help
    | .version => .misuse
    | .unknown => .misuse
    | .plain name => next (g.setFileFor v name)

/-- The arguments of the `help` command: at most the name of a command. -/
def helpFor : List String → Request
  | [] => .help
  | [name] => if (verb? name).isSome || name == "help" then .help else .misuse
  | _ => .misuse

/-- The arguments in front of a command. Without a command, the prompt is meant. -/
def frontOfCommand : Given → List String → Request
  | g, [] => invocation .prompt g .nothing
  | g, a :: as =>
    let next (g? : Option Given) : Request :=
      match g? with
      | some g => frontOfCommand g as
      | none => .misuse
    match word a with
    | .separator => if as = [] then invocation .prompt g .nothing else .misuse
    | .log => next g.setLog
    | .depth =>
      match as with
      | value :: as =>
        match g.setDepth value with
        | some g => frontOfCommand g as
        | none => .misuse
      | [] => .misuse
    | .depthIs value => next (g.setDepth value)
    | .version => .version
    | .help => .help
    | .json => .misuse
    | .unknown => .misuse
    | .plain name =>
      match verb? name with
      | some v => behindCommand v g .nothing as
      | none => if name == "help" then helpFor as else .misuse

/-- What a list of arguments asks for. -/
def request (args : List String) : Request := frontOfCommand .nothing args

end Arguments

end Lox
