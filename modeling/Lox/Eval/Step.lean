/-
The steps of an evaluation. Operands are evaluated from left to right. A reference is read and
written in the frame its recorded distance says, and among the globals if it has none.

Blocks and calls enter a new frame; what waits behind them says which frame to go back to, and it is
gone back to on every way out: at the end, at a `return`, and at an error.
-/
import Lox.Eval.Cont
import Lox.Interpreter

namespace Lox.Eval

/-- An evaluation under way. -/
structure State where
  control : Control
  it : Interpreter

/-- The value of a constant. -/
def literalValue : Literal → Value
  | .nil => .nil
  | .bool b => .bool b
  | .number x => .number x
  | .string s => .string s

/-- The value of a prefix operator. -/
def prefixValue (op : Kind) (v : Value) : Except Fault Value :=
  match op with
  | .minus =>
    match v with
    | .number x => .ok (.number (-x))
    | _ => .error .operandNotNumber
  | .bang => .ok (.bool !v.truthy)
  | _ => .error .unknownPrefixOperator

/-- The value of an operator on two numbers. -/
def numeric (f : Float → Float → Value) (left right : Value) : Except Fault Value :=
  match left, right with
  | .number x, .number y => .ok (f x y)
  | _, _ => .error .operandsNotNumbers

/-- The value of an infix operator. Only `+` takes strings, and equality takes anything. -/
def infixValue (op : Kind) (left right : Value) : Except Fault Value :=
  match op with
  | .plus =>
    match left, right with
    | .number x, .number y => .ok (.number (x + y))
    | .string s, .string t => .ok (.string (s ++ t))
    | _, _ => .error .operandsNotAddable
  | .minus => numeric (fun x y => .number (x - y)) left right
  | .star => numeric (fun x y => .number (x * y)) left right
  | .slash => numeric (fun x y => .number (x / y)) left right
  | .greater => numeric (fun x y => .bool (x > y)) left right
  | .greaterEqual => numeric (fun x y => .bool (x ≥ y)) left right
  | .less => numeric (fun x y => .bool (x < y)) left right
  | .lessEqual => numeric (fun x y => .bool (x ≤ y)) left right
  | .equalEqual => .ok (.bool (left.same right))
  | .bangEqual => .ok (.bool !left.same right)
  | _ => .error .unknownInfixOperator

/-- Does the left side decide the logical operator's value? -/
def decides (op : Kind) (left : Value) : Bool :=
  match op with
  | .or => left.truthy
  | _ => !left.truthy

/-- The bindings of a function's frame; of two parameters with one name the later one counts. -/
def parameterBindings (params : List Token) (args : List Value) : Bindings Value :=
  (params.zip args).foldl (fun b (param, arg) => b.put param.lexeme arg) .empty

/-- Gives a value, or raises the fault that came instead. -/
def giveOr (it : Interpreter) (blamed : Token) (r : Except Fault Value) (k : Cont .value) : State :=
  match r with
  | .ok v => ⟨.give v k, it⟩
  | .error fault => ⟨.raise (.failure blamed fault) k, it⟩

/-- Reads a variable. -/
def readVariable (it : Interpreter) (id : Nat) (name : Token) (k : Cont .value) : State :=
  match (it.referred? id name.lexeme).bind (it.heap.get? · name.lexeme) with
  | some v => ⟨.give v k, it⟩
  | none => ⟨.raise (.failure name .undefinedVariable) k, it⟩

/-- Writes a variable that exists. -/
def writeVariable (it : Interpreter) (id : Nat) (name : Token) (v : Value) (k : Cont .value) :
    State :=
  match it.referred? id name.lexeme with
  | some f => ⟨.give v k, it.define f name.lexeme v⟩
  | none => ⟨.raise (.failure name .undefinedVariable) k, it⟩

/-- Goes on with the arguments of a call, or calls when there are none left. -/
def nextArgument (it : Interpreter) (callee : Value) (paren : Token) (done : List Value)
    (rest : List Expr) (k : Cont .value) : State :=
  match rest with
  | [] => ⟨.call callee paren done.reverse k, it⟩
  | e :: es => ⟨.evaluate e (.argument callee paren done es k), it⟩

/-- Starts the evaluation of an expression. -/
def evaluate (it : Interpreter) (e : Expr) (k : Cont .value) : State :=
  match e with
  | .literal l => ⟨.give (literalValue l) k, it⟩
  | .group inner => ⟨.evaluate inner k, it⟩
  | .unary op right => ⟨.evaluate right (.operand op k), it⟩
  | .binary left op right => ⟨.evaluate left (.leftOperand op right k), it⟩
  | .logical left op right => ⟨.evaluate left (.decision op right k), it⟩
  | .variable id name => readVariable it id name k
  | .assign id name value => ⟨.evaluate value (.assigned id name k), it⟩
  | .call callee paren args => ⟨.evaluate callee (.callee paren args k), it⟩
  | .get object name => ⟨.evaluate object (.getObject name k), it⟩
  | .set object name value => ⟨.evaluate object (.setObject name value k), it⟩

/-- Declares a class: the name is there, bound to nothing, before the class is made. -/
def declareClass (it : Interpreter) (name : Token) (k : Cont .flow) : State :=
  let it := it.define it.frame name.lexeme .nil
  let (cls, heap) := it.heap.newClass name.lexeme
  let it := { it with heap }
  match it.heap.owner? it.frame name.lexeme with
  | some f => ⟨.finish .normal k, it.define f name.lexeme cls⟩
  | none => ⟨.raise (.failure name .undefinedVariable) k, it⟩

/-- Declares a function, which keeps the frame it is declared in. -/
def declareFunction (it : Interpreter) (decl : Function) (k : Cont .flow) : State :=
  let (f, heap) := it.heap.newFunction ⟨decl, it.frame⟩
  let it := { it with heap }
  ⟨.finish .normal k, it.define it.frame decl.name.lexeme f⟩

/-- Starts the execution of a statement. -/
def execute (it : Interpreter) (s : Stmt) (k : Cont .flow) : State :=
  match s with
  | .expression e => ⟨.evaluate e (.discarded k), it⟩
  | .print e => ⟨.evaluate e (.printed k), it⟩
  | .var name (some e) => ⟨.evaluate e (.initializer name k), it⟩
  | .var name none => ⟨.finish .normal k, it.define it.frame name.lexeme .nil⟩
  | .block body => ⟨.executeAll body (.blockEnd it.frame k), it.enterNew it.frame .empty⟩
  | .if condition thenBranch elseBranch =>
    ⟨.evaluate condition (.ifTest thenBranch elseBranch k), it⟩
  | .while condition body => ⟨.evaluate condition (.whileTest condition body k), it⟩
  | .function decl => declareFunction it decl k
  | .return _ (some e) => ⟨.evaluate e (.returned k), it⟩
  | .return _ none => ⟨.finish (.returned .nil) k, it⟩
  | .class name _ => declareClass it name k

/-- Goes on with a list of statements. -/
def executeAll (it : Interpreter) (ss : List Stmt) (k : Cont .flow) : State :=
  match ss with
  | [] => ⟨.finish .normal k, it⟩
  | s :: ss => ⟨.execute s (.sequence ss k), it⟩

/-- Enters a function, unless too many calls are open. -/
def callFunction (it : Interpreter) (f : Closure) (paren : Token) (args : List Value)
    (k : Cont .value) : State :=
  if it.depth ≥ it.maxDepth then ⟨.raise (.stackOverflow paren) k, it⟩
  else
    let frame := it.frame
    let it := it.enterNew f.frame (parameterBindings f.decl.params args)
    ⟨.executeAll f.decl.body (.callEnd frame k), { it with depth := it.depth + 1 }⟩

/-- Runs a native; each run takes one reading of the clock. -/
def callNative (it : Interpreter) (n : Native) (paren : Token) (args : List Value)
    (k : Cont .value) : State :=
  let answer := n.act ⟨it.heap, it.clock.reading, args⟩
  giveOr { it with clock := it.clock.advance } paren (answer.mapError .native) k

/-- Calls a value with evaluated arguments: only functions, natives and classes can be called, and
only with as many arguments as they take. A class takes none and makes an instance. -/
def call (it : Interpreter) (callee : Value) (paren : Token) (args : List Value) (k : Cont .value) :
    State :=
  let raise (fault : Fault) : State := ⟨.raise (.failure paren fault) k, it⟩
  match callee with
  | .native n =>
    match it.native? n with
    | some native =>
      if args.length = native.arity then callNative it native paren args k
      else raise (.argumentCount native.arity args.length)
    | none => raise .notCallable
  | .function f =>
    match it.heap.function? f with
    | some closure =>
      if args.length = closure.decl.params.length then callFunction it closure paren args k
      else raise (.argumentCount closure.decl.params.length args.length)
    | none => raise .notCallable
  | .class c =>
    if args.length = 0 then
      let (v, heap) := it.heap.newInstance c
      ⟨.give v k, { it with heap }⟩
    else raise (.argumentCount 0 args.length)
  | _ => raise .notCallable

/-- Prints a value and a line end. -/
def print (it : Interpreter) (v : Value) (k : Cont .flow) : State :=
  let text := it.heap.text v ++ "\n"
  let (result, sink) := it.sink.print text
  let it := { it with sink }
  match result with
  | .ok () => ⟨.finish .normal k, it⟩
  | .error refusal => ⟨.raise (.output refusal) k, it⟩

/-- Hands a value to what waits for it. -/
def give (it : Interpreter) (v : Value) : Cont .value → State
  | .value => ⟨.ended (.value v), it⟩
  | .operand op k => giveOr it op (prefixValue op.kind v) k
  | .leftOperand op right k => ⟨.evaluate right (.rightOperand op v k), it⟩
  | .rightOperand op left k => giveOr it op (infixValue op.kind left v) k
  | .decision op right k =>
    if decides op.kind v then ⟨.give v k, it⟩ else ⟨.evaluate right k, it⟩
  | .assigned id name k => writeVariable it id name v k
  | .callee paren args k => nextArgument it v paren [] args k
  | .argument callee paren done rest k => nextArgument it callee paren (v :: done) rest k
  | .getObject name k =>
    match v with
    | .instance i =>
      match it.heap.field? i name.lexeme with
      | some v => ⟨.give v k, it⟩
      | none => ⟨.raise (.failure name .undefinedProperty) k, it⟩
    | _ => ⟨.raise (.failure name .propertyOfNonInstance) k, it⟩
  | .setObject name value k =>
    match v with
    | .instance i => ⟨.evaluate value (.setValue i name k), it⟩
    | _ => ⟨.raise (.failure name .fieldOfNonInstance) k, it⟩
  | .setValue i name k => ⟨.give v k, { it with heap := it.heap.setField i name.lexeme v }⟩
  | .discarded k => ⟨.finish .normal k, it⟩
  | .printed k => print it v k
  | .initializer name k => ⟨.finish .normal k, it.define it.frame name.lexeme v⟩
  | .returned k => ⟨.finish (.returned v) k, it⟩
  | .ifTest thenBranch elseBranch k =>
    if v.truthy then ⟨.execute thenBranch k, it⟩
    else
      match elseBranch with
      | some elseBranch => ⟨.execute elseBranch k, it⟩
      | none => ⟨.finish .normal k, it⟩
  | .whileTest condition body k =>
    if v.truthy then ⟨.execute body (.whileBody condition body k), it⟩
    else ⟨.finish .normal k, it⟩

/-- Hands the end of a statement to what waits for it. A `return` passes everything by up to the end
of its function. -/
def finish (it : Interpreter) (f : Flow) : Cont .flow → State
  | .flow => ⟨.ended (.flow f), it⟩
  | .blockEnd frame k => ⟨.finish f k, it.enter frame⟩
  | .callEnd frame k =>
    let it := { it.enter frame with depth := it.depth - 1 }
    match f with
    | .normal => ⟨.give .nil k, it⟩
    | .returned v => ⟨.give v k, it⟩
  | .sequence rest k =>
    match f with
    | .normal => ⟨.executeAll rest k, it⟩
    | .returned v => ⟨.finish (.returned v) k, it⟩
  | .whileBody condition body k =>
    match f with
    | .normal => ⟨.evaluate condition (.whileTest condition body k), it⟩
    | .returned v => ⟨.finish (.returned v) k, it⟩

/-- Gives up what waits, putting back frames and call depth on the way. -/
def raise (it : Interpreter) (e : RuntimeError) : {a : Answer} → Cont a → State
  | _, .value => ⟨.ended (.fault e), it⟩
  | _, .flow => ⟨.ended (.fault e), it⟩
  | _, .blockEnd frame k => ⟨.raise e k, it.enter frame⟩
  | _, .callEnd frame k => ⟨.raise e k, { it.enter frame with depth := it.depth - 1 }⟩
  | _, .operand _ k => ⟨.raise e k, it⟩
  | _, .leftOperand _ _ k => ⟨.raise e k, it⟩
  | _, .rightOperand _ _ k => ⟨.raise e k, it⟩
  | _, .decision _ _ k => ⟨.raise e k, it⟩
  | _, .assigned _ _ k => ⟨.raise e k, it⟩
  | _, .callee _ _ k => ⟨.raise e k, it⟩
  | _, .argument _ _ _ _ k => ⟨.raise e k, it⟩
  | _, .getObject _ k => ⟨.raise e k, it⟩
  | _, .setObject _ _ k => ⟨.raise e k, it⟩
  | _, .setValue _ _ k => ⟨.raise e k, it⟩
  | _, .discarded k => ⟨.raise e k, it⟩
  | _, .printed k => ⟨.raise e k, it⟩
  | _, .initializer _ k => ⟨.raise e k, it⟩
  | _, .returned k => ⟨.raise e k, it⟩
  | _, .ifTest _ _ k => ⟨.raise e k, it⟩
  | _, .whileTest _ _ k => ⟨.raise e k, it⟩
  | _, .whileBody _ _ k => ⟨.raise e k, it⟩
  | _, .sequence _ k => ⟨.raise e k, it⟩

/-- One step. An evaluation that has ended stays as it is. -/
def State.step (s : State) : State :=
  match s with
  | ⟨.evaluate e k, it⟩ => Eval.evaluate it e k
  | ⟨.execute stmt k, it⟩ => Eval.execute it stmt k
  | ⟨.executeAll ss k, it⟩ => Eval.executeAll it ss k
  | ⟨.call callee paren args k, it⟩ => Eval.call it callee paren args k
  | ⟨.give v k, it⟩ => Eval.give it v k
  | ⟨.finish f k, it⟩ => Eval.finish it f k
  | ⟨.raise e k, it⟩ => Eval.raise it e k
  | ⟨.ended o, it⟩ => ⟨.ended o, it⟩

end Lox.Eval
