/-
Runtime errors: what stops a running program, each a cause with the token it is blamed on, and the
one wording of every message.
-/
import Lox.Sink
import Lox.Token

namespace Lox

/-- What an operation can find wrong. The token that is blamed gives the name or place. -/
inductive Fault
  | undefinedVariable
  | undefinedProperty
  | propertyOfNonInstance
  | fieldOfNonInstance
  | operandNotNumber
  | operandsNotNumbers
  | operandsNotAddable
  | unknownPrefixOperator
  | unknownInfixOperator
  | notCallable
  | argumentCount (expected got : Nat)
  /-- A native failed with a message of its own. -/
  | native (message : String)
  deriving DecidableEq

inductive RuntimeError
  | failure (token : Token) (fault : Fault)
  /-- A call went deeper than the limit. -/
  | stackOverflow (token : Token)
  | output (refusal : Refusal)
  deriving DecidableEq

/-- The message of a fault blamed on a token with the given lexeme. -/
def Fault.message (lexeme : String) : Fault → String
  | undefinedVariable => "Undefined variable '" ++ lexeme ++ "'."
  | undefinedProperty => "Undefined property '" ++ lexeme ++ "'."
  | propertyOfNonInstance => "Only instances have properties."
  | fieldOfNonInstance => "Only instances have fields."
  | operandNotNumber => "Operand must be a number."
  | operandsNotNumbers => "Operands must be numbers."
  | operandsNotAddable => "Operands must be two numbers or two strings."
  | unknownPrefixOperator => "Invalid unary operator."
  | unknownInfixOperator => "Invalid binary operator."
  | notCallable => "Can only call functions and classes."
  | argumentCount expected got =>
    "Expected " ++ toString expected ++ " arguments but got " ++ toString got ++ "."
  | native message => message

namespace RuntimeError

/-- The token an error is blamed on; a failed output has none. -/
def token? : RuntimeError → Option Token
  | failure token _ => some token
  | stackOverflow token => some token
  | output _ => none

/-- The line an error is blamed on, zero for a failed output. -/
def line (e : RuntimeError) : Nat := (e.token?.map (·.line)).getD 0

def message : RuntimeError → String
  | failure token fault => fault.message token.lexeme
  | stackOverflow _ => "Stack overflow."
  | output refusal => refusal.message

/-- The report of an error. -/
def text (e : RuntimeError) : String :=
  match e with
  | output _ => "Output error: " ++ e.message
  | _ => e.message ++ "\n[line " ++ toString e.line ++ "]"

end RuntimeError

end Lox
