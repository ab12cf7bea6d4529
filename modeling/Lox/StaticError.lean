/-
Static errors: what can be wrong with a program before it runs, each a cause with the place it is
blamed on, and the one wording of every message.
-/
import Lox.Token

namespace Lox

/-- What is wrong with a piece of text that is no token. -/
inductive LexicalFault
  | unexpectedCharacter
  | unterminatedString
  deriving DecidableEq

/-- The two ways to write a function body: after `fun`, or in a class. -/
inductive Callable
  | function
  | method
  deriving DecidableEq

/-- What the grammar asks for at a token that is something else. -/
inductive Expected
  | className
  | classBodyOpen
  | classBodyClose
  | callableName (c : Callable)
  | callableOpen (c : Callable)
  | parameterName
  | parametersClose
  | callableBodyOpen (c : Callable)
  | variableName
  | variableEnd
  | forOpen
  | forConditionEnd
  | forClose
  | ifOpen
  | ifClose
  | printEnd
  | returnEnd
  | whileOpen
  | whileClose
  | expressionEnd
  | blockClose
  | propertyName
  | argumentsClose
  | groupClose
  | expression
  deriving DecidableEq

/-- What is wrong with the order of tokens. Only a missing expected token keeps a declaration from
being built; the other faults are noted on the way. -/
inductive SyntaxFault
  | expected (what : Expected)
  | tooManyParameters
  | tooManyArguments
  | invalidAssignmentTarget
  deriving DecidableEq

/-- What is wrong with the use of names and of `return`. -/
inductive ScopeFault
  | alreadyDeclared
  | readInOwnInitializer
  | returnOutsideFunction
  deriving DecidableEq

/-- A static error and the place it is blamed on. -/
inductive StaticError
  | lexical (line : Nat) (fault : LexicalFault)
  | syntactic (token : Token) (fault : SyntaxFault)
  | scoping (token : Token) (fault : ScopeFault)
  deriving DecidableEq

namespace LexicalFault

def message : LexicalFault → String
  | unexpectedCharacter => "Unexpected character."
  | unterminatedString => "Unterminated string."

end LexicalFault

namespace Callable

def noun : Callable → String
  | function => "function"
  | method => "method"

end Callable

namespace Expected

def message : Expected → String
  | className => "Expect class name."
  | classBodyOpen => "Expect '\x7b' before class body."
  | classBodyClose => "Expect '\x7d' after class body."
  | callableName c => "Expect " ++ c.noun ++ " name."
  | callableOpen c => "Expect '(' after " ++ c.noun ++ " name."
  | parameterName => "Expect parameter name."
  | parametersClose => "Expect ')' after parameters."
  | callableBodyOpen c => "Expect '\x7b' before " ++ c.noun ++ " body."
  | variableName => "Expect variable name."
  | variableEnd => "Expect ';' after variable declaration."
  | forOpen => "Expect '(' after 'for'."
  | forConditionEnd => "Expect ';' after loop condition."
  | forClose => "Expect ')' after for clauses."
  | ifOpen => "Expect '(' after 'if'."
  | ifClose => "Expect ')' after if condition."
  | printEnd => "Expect ';' after value."
  | returnEnd => "Expect ';' after return value."
  | whileOpen => "Expect '(' after 'while'."
  | whileClose => "Expect ')' after condition."
  | expressionEnd => "Expect ';' after expression."
  | blockClose => "Expect '\x7d' after block."
  | propertyName => "Expect property name after '.'."
  | argumentsClose => "Expect ')' after arguments."
  | groupClose => "Expect ')' after expression."
  | expression => "Expect expression."

end Expected

namespace SyntaxFault

def message : SyntaxFault → String
  | expected what => what.message
  | tooManyParameters => "Can't have more than 255 parameters."
  | tooManyArguments => "Can't have more than 255 arguments."
  | invalidAssignmentTarget => "Invalid assignment target."

end SyntaxFault

namespace ScopeFault

def message : ScopeFault → String
  | alreadyDeclared => "Already a variable with this name in this scope."
  | readInOwnInitializer => "Can't read local variable in its own initializer."
  | returnOutsideFunction => "Can't return from top-level code."

end ScopeFault

/-- Where a token is, as messages say it. -/
def Token.place (t : Token) : String :=
  match t.kind with
  | .eof => " at end"
  | _ => " at '" ++ t.lexeme ++ "'"

namespace StaticError

def message : StaticError → String
  | lexical _ fault => fault.message
  | syntactic _ fault => fault.message
  | scoping _ fault => fault.message

/-- The line an error is blamed on. -/
def line : StaticError → Nat
  | lexical line _ => line
  | syntactic token _ => token.line
  | scoping token _ => token.line

/-- The token an error quotes; a lexical error has none. -/
def token? : StaticError → Option Token
  | lexical _ _ => none
  | syntactic token _ => some token
  | scoping token _ => some token

/-- The report of an error: line, place and message. -/
def text (e : StaticError) : String :=
  "[line " ++ toString e.line ++ "] Error" ++ (e.token?.map Token.place).getD "" ++ ": " ++
    e.message

end StaticError

end Lox
