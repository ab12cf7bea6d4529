/-
Parsing at an index. A `Parser` keeps all its tokens and the index of the next one, and only asks for
tokens at indices: where there is none, it fails. What keeps it in front of the first end of source
are the checks of `check?` and `advance?` alone; the tokens behind that are there like all others.

The tasks, and what waits for them, are those of `State`. Nothing here says that a parser does not
fail, that its skips end in time, or that it comes to the same program.
-/
import Lox.Parse.Run

namespace Lox.Parse

/-- The tokens, with an end of source behind them if none is the last of them. -/
def closed (tokens : List Token) : List Token :=
  if tokens.getLast?.map (·.kind) = some .eof then tokens
  else tokens ++ [.endOn ((tokens.getLast?.map (·.line)).getD 1)]

/-- The operators of a level, in the order they are looked for. -/
def Level.operators : Level → List Kind
  | or => [.or]
  | and => [.and]
  | equality => [.bangEqual, .equalEqual]
  | comparison => [.greater, .greaterEqual, .less, .lessEqual]
  | term => [.minus, .plus]
  | factor => [.star, .slash]

/-- A parse under way: what it does next, all its tokens, the index of the next one, the next free
reference id, and the errors noted so far, newest first. -/
structure Parser where
  task : Task
  tokens : List Token
  current : Nat
  nextId : Nat
  errors : List StaticError

namespace Parser

/-- The start of a parse. -/
def new (nextId : Nat) (tokens : List Token) : Parser :=
  ⟨.program [], closed tokens, 0, nextId, []⟩

/-! ## Single tokens -/

section

variable (s : Parser)

/-- The next token. -/
def peek? : Option Token := s.tokens[s.current]?

/-- The token before the next one, or the first one. -/
def previous? : Option Token := s.tokens[s.current - 1]?

def isAtEnd? : Option Bool := s.peek?.map (·.kind == .eof)

/-- Is the next token of the kind? An end of source is of none. -/
def check? (kind : Kind) : Option Bool :=
  s.isAtEnd?.bind fun ended => if ended then some false else s.peek?.map (·.kind.sameForm kind)

/-- Takes the next token, unless it is an end of source. -/
def advance? : Option (Token × Parser) :=
  s.isAtEnd?.bind fun ended =>
    let s := if ended then s else { s with current := s.current + 1 }
    s.previous?.map fun token => (token, s)

/-- Goes on with another task. -/
def goTo (task : Task) : Parser := { s with task }

/-- Takes the next token if it is of the kind, and goes on one way or the other. -/
def onKind (kind : Kind) (taken : Parser → Option Parser) (left : Option Parser) : Option Parser :=
  (s.check? kind).bind fun found => if found then s.advance?.bind (taken ·.2) else left

/-- Takes the next token if it is of the kind, for another task. -/
def accept (kind : Kind) (task : Task) (left : Option Parser) : Option Parser :=
  s.onKind kind (fun s => some (s.goTo task)) left

/-- Takes the next token if it is of one of the kinds. -/
def onKinds (kinds : List Kind) (taken : Parser → Option Parser) (left : Option Parser) :
    Option Parser :=
  kinds.foldr (fun kind left => s.onKind kind taken left) left

/-- Gives up at the next token. -/
def missing (what : Expected) {p : Part} (k : Pending p) : Option Parser :=
  s.peek?.map fun token => s.goTo (.fail (.syntactic token (.expected what)) k)

/-- Takes the next token, which has to be of the kind. -/
def consume (kind : Kind) (what : Expected) {p : Part} (k : Pending p) (task : Token → Task) :
    Option Parser :=
  (s.check? kind).bind fun found =>
    if found then s.advance?.map fun (token, s) => s.goTo (task token) else s.missing what k

/-- Notes an error at the next token. -/
def note (fault : SyntaxFault) : Option Parser :=
  s.peek?.map fun token => { s with errors := .syntactic token fault :: s.errors }

end

theorem current_lt_of_isAtEnd? {s : Parser} {ended : Bool} (h : s.isAtEnd? = some ended) :
    s.current < s.tokens.length := by
  obtain ⟨token, found, -⟩ := Option.map_eq_some_iff.1 h
  exact (List.getElem?_eq_some_iff.1 found).1

theorem advance?_of_more {s s' : Parser} {token : Token} (more : s.isAtEnd? = some false)
    (h : s.advance? = some (token, s')) : s' = { s with current := s.current + 1 } := by
  rw [advance?, more, Option.bind_some] at h
  obtain ⟨token, -, h⟩ := Option.map_eq_some_iff.1 h
  cases h
  rfl

/-- Skips tokens up to a place where a declaration may start: behind a semicolon, or before a word
that starts one. -/
def skip? (s : Parser) : Option Parser :=
  match _more : s.isAtEnd? with
  | none => none
  | some true => some s
  | some false =>
    match s.previous?, s.peek? with
    | some previous, some next =>
      if previous.kind = .semicolon || startsDeclaration next.kind then some s
      else
        match _moved : s.advance? with
        | none => none
        | some (_, s') => s'.skip?
    | _, _ => none
termination_by s.tokens.length - s.current
decreasing_by
  have := current_lt_of_isAtEnd? _more
  rw [advance?_of_more _more _moved]
  show s.tokens.length - (s.current + 1) < _
  omega

/-- Gives up the next token, and those that are skipped behind it. -/
def synchronize? (s : Parser) : Option Parser := s.advance?.bind (·.2.skip?)

/-! ## Steps -/

section

variable (s : Parser)

/-- Makes an assignment of its two sides. -/
def assign (target : Expr) (equals : Token) (value : Expr) (k : Pending .expression) : Parser :=
  match target with
  | .variable _ name =>
    { s with
      task := .giveExpression (.assign s.nextId name value) k
      nextId := s.nextId + 1 }
  | .get object name => s.goTo (.giveExpression (.set object name value) k)
  | target =>
    { s with
      task := .giveExpression target k
      errors := .syntactic equals .invalidAssignmentTarget :: s.errors }

/-- Starts a declaration. -/
def declaration (k : Pending .statement) : Option Parser :=
  s.accept .class (.className k) <|
  s.accept .fun (.callableName .function (.declared k)) <|
  s.accept .var (.variableName k) <|
  some (s.goTo (.statement k))

/-- Starts a statement. -/
def statement (k : Pending .statement) : Option Parser :=
  s.accept .for (.forOpen k) <|
  s.accept .if (.ifOpen k) <|
  s.accept .print (.expression (.printed k)) <|
  s.onKind .return (fun s => s.previous?.map fun keyword => s.goTo (.returnValue keyword k)) <|
  s.accept .while (.whileOpen k) <|
  s.accept .leftBrace (.declarations [] (.block k)) <|
  some (s.goTo (.expression (.expressionStatement k)))

/-- Starts the first clause of a `for` loop. -/
def forInitializer (k : Pending .statement) : Option Parser :=
  s.accept .semicolon (.forTest none k) <|
  s.accept .var (.variableName (.forInitializer k)) <|
  some (s.goTo (.expression (.expressionStatement (.forInitializer k))))

/-- Starts a prefix expression. -/
def unary (k : Pending .expression) : Option Parser :=
  s.onKinds [.bang, .minus] (fun s => s.previous?.map fun op => s.goTo (.unary (.operand op k)))
    (some (s.goTo (.primary (.trailers k))))

/-- Starts an expression that nothing needs to be looked for in front of. -/
def primary (k : Pending .expression) : Option Parser :=
  s.accept .false (.giveExpression (.literal (.bool false)) k) <|
  s.accept .true (.giveExpression (.literal (.bool true)) k) <|
  s.accept .nil (.giveExpression (.literal .nil) k) <|
  s.peek?.bind fun token =>
    match token.kind with
    | .number x => s.advance?.map fun (_, s) => s.goTo (.giveExpression (.literal (.number x)) k)
    | .string text =>
      s.advance?.map fun (_, s) => s.goTo (.giveExpression (.literal (.string text)) k)
    | _ =>
      s.onKind .identifier (fun s => s.previous?.map fun name =>
        { s with
          task := .giveExpression (.variable s.nextId name) k
          nextId := s.nextId + 1 }) <|
      s.accept .leftParen (.expression (.group k)) <|
      s.missing .expression k

/-- Hands an expression to what waits for it. -/
def giveExpression (e : Expr) : Pending .expression → Option Parser
  | .assignment k =>
    s.onKind .equal
      (fun s => s.previous?.map fun equals => s.goTo (.expression (.assigned e equals k)))
      (some (s.goTo (.giveExpression e k)))
  | .assigned target equals k => some (s.assign target equals e k)
  | .operators l k =>
    s.onKinds l.operators
      (fun s => s.previous?.map fun op => s.goTo (State.operandTask l (.rightOperand l e op k)))
      (some (s.goTo (.giveExpression e k)))
  | .rightOperand l left op k => some (s.goTo (.giveExpression (l.join left op e) (.operators l k)))
  | .operand op k => some (s.goTo (.giveExpression (.unary op e) k))
  | .trailers k =>
    s.accept .leftParen (.arguments e (.trailers k)) <|
    s.accept .dot (.property e (.trailers k)) <|
    some (s.goTo (.giveExpression e k))
  | .argument callee done k =>
    s.accept .comma (.argument callee (e :: done) k) <|
    s.consume .rightParen .argumentsClose k fun paren =>
      .giveExpression (.call callee paren (e :: done).reverse) k
  | .group k => s.consume .rightParen .groupClose k fun _ => .giveExpression (.group e) k
  | .initializer name k =>
    s.consume .semicolon .variableEnd k fun _ => .giveStatement (.var name (some e)) k
  | .ifTest k => s.consume .rightParen .ifClose k fun _ => .statement (.thenBranch e k)
  | .whileTest k => s.consume .rightParen .whileClose k fun _ => .statement (.whileBody e k)
  | .printed k => s.consume .semicolon .printEnd k fun _ => .giveStatement (.print e) k
  | .returned keyword k =>
    s.consume .semicolon .returnEnd k fun _ => .giveStatement (.return keyword (some e)) k
  | .expressionStatement k =>
    s.consume .semicolon .expressionEnd k fun _ => .giveStatement (.expression e) k
  | .forTest initializer k =>
    s.consume .semicolon .forConditionEnd k fun _ => .forStep initializer (some e) k
  | .forStep initializer test k =>
    s.consume .rightParen .forClose k fun _ =>
      .statement (.forBody initializer test (some e) k)

/-- Hands a statement to what waits for it. -/
def giveStatement (stmt : Stmt) : Pending .statement → Option Parser
  | .program done => some (s.goTo (.program (stmt :: done)))
  | .declarations done k => some (s.goTo (.declarations (stmt :: done) k))
  | .thenBranch condition k =>
    s.accept .else (.statement (.elseBranch condition stmt k)) <|
    some (s.goTo (.giveStatement (.if condition stmt none) k))
  | .elseBranch condition thenBranch k =>
    some (s.goTo (.giveStatement (.if condition thenBranch (some stmt)) k))
  | .whileBody condition k => some (s.goTo (.giveStatement (.while condition stmt) k))
  | .forInitializer k => some (s.goTo (.forTest (some stmt) k))
  | .forBody initializer test step k =>
    some (s.goTo (.giveStatement (forLoop initializer test step stmt) k))

/-- Hands a function to what waits for it. -/
def giveFunction (f : Function) : Pending .function → Parser
  | .declared k => s.goTo (.giveStatement (.function f) k)
  | .method className done k => s.goTo (.methods className (f :: done) k)

/-- Hands the statements between braces to what waits for them. -/
def giveBody (body : List Stmt) : Pending .body → Parser
  | .block k => s.goTo (.giveStatement (.block body) k)
  | .functionBody name params k => s.goTo (.giveFunction ⟨name, params, body⟩ k)

/-- A declaration is given up: its error is noted, and its list goes on behind what is skipped. -/
def giveUp (e : StaticError) (list : Task) : Option Parser :=
  { s with task := list, errors := e :: s.errors }.synchronize?

/-- Gives up what waits, up to the innermost list of declarations. -/
def fail (e : StaticError) : {p : Part} → Pending p → Option Parser
  | _, .program done => s.giveUp e (.program done)
  | _, .declarations done k => s.giveUp e (.declarations done k)
  | _, .assignment k => some (s.goTo (.fail e k))
  | _, .assigned _ _ k => some (s.goTo (.fail e k))
  | _, .operators _ k => some (s.goTo (.fail e k))
  | _, .rightOperand _ _ _ k => some (s.goTo (.fail e k))
  | _, .operand _ k => some (s.goTo (.fail e k))
  | _, .trailers k => some (s.goTo (.fail e k))
  | _, .argument _ _ k => some (s.goTo (.fail e k))
  | _, .group k => some (s.goTo (.fail e k))
  | _, .initializer _ k => some (s.goTo (.fail e k))
  | _, .ifTest k => some (s.goTo (.fail e k))
  | _, .whileTest k => some (s.goTo (.fail e k))
  | _, .printed k => some (s.goTo (.fail e k))
  | _, .returned _ k => some (s.goTo (.fail e k))
  | _, .expressionStatement k => some (s.goTo (.fail e k))
  | _, .forTest _ k => some (s.goTo (.fail e k))
  | _, .forStep _ _ k => some (s.goTo (.fail e k))
  | _, .thenBranch _ k => some (s.goTo (.fail e k))
  | _, .elseBranch _ _ k => some (s.goTo (.fail e k))
  | _, .whileBody _ k => some (s.goTo (.fail e k))
  | _, .forInitializer k => some (s.goTo (.fail e k))
  | _, .forBody _ _ _ k => some (s.goTo (.fail e k))
  | _, .block k => some (s.goTo (.fail e k))
  | _, .functionBody _ _ k => some (s.goTo (.fail e k))
  | _, .declared k => some (s.goTo (.fail e k))
  | _, .method _ _ k => some (s.goTo (.fail e k))

/-- Goes on to a clause that is there unless the next token is of the kind, which it then takes. -/
def clause (kind : Kind) (what : Expected) {p : Part} (k : Pending p) (without : Token → Task)
    (within : Task) : Option Parser :=
  (s.check? kind).bind fun ends =>
    if ends then s.consume kind what k without else some (s.goTo within)

/-- Goes on with a list up to the kind that closes it, or up to the end of source. -/
def items (what : Expected) {p : Part} (k : Pending p) (closing : Token → Task) (item : Task) :
    Option Parser :=
  (s.check? .rightBrace).bind fun closes =>
    s.isAtEnd?.bind fun ended =>
      if closes || ended then s.consume .rightBrace what k closing else some (s.goTo item)

end

/-- One step. A finished parse stays as it is. -/
def step? (s : Parser) : Option Parser :=
  match s.task with
  | .program done =>
    s.isAtEnd?.map fun ended =>
      s.goTo (if ended then .finished done.reverse else .declaration (.program done))
  | .declarations done k =>
    s.items .blockClose k (fun _ => .giveBody done.reverse k) (.declaration (.declarations done k))
  | .declaration k => s.declaration k
  | .className k => s.consume .identifier .className k fun name => .classOpen name k
  | .classOpen name k => s.consume .leftBrace .classBodyOpen k fun _ => .methods name [] k
  | .methods name done k =>
    s.items .classBodyClose k (fun _ => .giveStatement (.class name done.reverse) k)
      (.callableName .method (.method name done k))
  | .callableName c k =>
    s.consume .identifier (.callableName c) k fun name => .callableOpen c name k
  | .callableOpen c name k =>
    s.consume .leftParen (.callableOpen c) k fun _ => .parameters c name k
  | .parameters c name k =>
    s.clause .rightParen .parametersClose k (fun _ => .callableBody c name [] k)
      (.parameter c name [] k)
  | .parameter c name done k =>
    (if done.length ≥ maxArity then s.note .tooManyParameters else some s).bind fun s =>
      s.consume .identifier .parameterName k fun param => .parameterEnd c name (param :: done) k
  | .parameterEnd c name done k =>
    s.accept .comma (.parameter c name done k) <|
    s.consume .rightParen .parametersClose k fun _ => .callableBody c name done.reverse k
  | .callableBody c name params k =>
    s.consume .leftBrace (.callableBodyOpen c) k fun _ =>
      .declarations [] (.functionBody name params k)
  | .variableName k => s.consume .identifier .variableName k fun name => .variableValue name k
  | .variableValue name k =>
    s.accept .equal (.expression (.initializer name k)) <|
    s.consume .semicolon .variableEnd k fun _ => .giveStatement (.var name none) k
  | .statement k => s.statement k
  | .forOpen k => s.consume .leftParen .forOpen k fun _ => .forInitializer k
  | .forInitializer k => s.forInitializer k
  | .forTest initializer k =>
    s.clause .semicolon .forConditionEnd k (fun _ => .forStep initializer none k)
      (.expression (.forTest initializer k))
  | .forStep initializer test k =>
    s.clause .rightParen .forClose k (fun _ => .statement (.forBody initializer test none k))
      (.expression (.forStep initializer test k))
  | .ifOpen k => s.consume .leftParen .ifOpen k fun _ => .expression (.ifTest k)
  | .whileOpen k => s.consume .leftParen .whileOpen k fun _ => .expression (.whileTest k)
  | .returnValue keyword k =>
    s.clause .semicolon .returnEnd k (fun _ => .giveStatement (.return keyword none) k)
      (.expression (.returned keyword k))
  | .expression k => some (s.goTo (.level .or (.assignment k)))
  | .level l k => some (s.goTo (State.operandTask l (.operators l k)))
  | .unary k => s.unary k
  | .primary k => s.primary k
  | .arguments callee k =>
    s.clause .rightParen .argumentsClose k
      (fun paren => .giveExpression (.call callee paren []) k) (.argument callee [] k)
  | .argument callee done k =>
    (if done.length ≥ maxArity then s.note .tooManyArguments else some s).map fun s =>
      s.goTo (.expression (.argument callee done k))
  | .property object k =>
    s.consume .identifier .propertyName k fun name => .giveExpression (.get object name) k
  | .giveExpression e k => s.giveExpression e k
  | .giveStatement stmt k => s.giveStatement stmt k
  | .giveFunction f k => some (s.giveFunction f k)
  | .giveBody body k => some (s.giveBody body k)
  | .fail e k => s.fail e k
  | .finished _ => some s

/-- What a finished parse has come to. -/
def result? (s : Parser) : Option Parsed :=
  match s.task with
  | .finished program =>
    some ⟨if s.errors.isEmpty then .ok program else .error s.errors.reverse, s.nextId⟩
  | _ => none

/-- Some steps, of which none may fail. -/
def after : Nat → Parser → Option Parser
  | 0, s => some s
  | n + 1, s => s.step?.bind (after n)

end Parser

end Lox.Parse
