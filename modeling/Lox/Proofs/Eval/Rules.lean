/-
What a step can do, said once. Most steps leave the interpreter alone: they turn to what comes next
(`Turn`), or find that what is to be done cannot be done (`Fail`). The others declare or write, enter
or leave a frame, call a native, make an instance, or print (`Rule`). Every step goes by a rule
(`step_rule`), and where a rule leads, the step goes (`Rule.step_eq`).

So what steps preserve is proved by the cases of a rule, and two evaluations are shown to take the same
step by the same rule for both.
-/
import Lox.Eval.Step

namespace Lox.Eval

/-! ## Rules -/

/-- An error gives up the first chain for the second, with nothing to be put back. -/
inductive Cont.Yields : {a b : Answer} → Cont a → Cont b → Prop
  | operand (op : Token) (k : Cont .value) : Yields (.operand op k) k
  | leftOperand (op : Token) (right : Expr) (k : Cont .value) : Yields (.leftOperand op right k) k
  | rightOperand (op : Token) (left : Value) (k : Cont .value) : Yields (.rightOperand op left k) k
  | decision (op : Token) (right : Expr) (k : Cont .value) : Yields (.decision op right k) k
  | assigned (id : Nat) (name : Token) (k : Cont .value) : Yields (.assigned id name k) k
  | callee (paren : Token) (args : List Expr) (k : Cont .value) : Yields (.callee paren args k) k
  | argument (callee : Value) (paren : Token) (done : List Value) (rest : List Expr)
    (k : Cont .value) : Yields (.argument callee paren done rest k) k
  | getObject (name : Token) (k : Cont .value) : Yields (.getObject name k) k
  | setObject (name : Token) (value : Expr) (k : Cont .value) : Yields (.setObject name value k) k
  | setValue (target : InstanceRef) (name : Token) (k : Cont .value) :
    Yields (.setValue target name k) k
  | discarded (k : Cont .flow) : Yields (.discarded k) k
  | printed (k : Cont .flow) : Yields (.printed k) k
  | initializer (name : Token) (k : Cont .flow) : Yields (.initializer name k) k
  | returned (k : Cont .flow) : Yields (.returned k) k
  | ifTest (thenBranch : Stmt) (elseBranch : Option Stmt) (k : Cont .flow) :
    Yields (.ifTest thenBranch elseBranch k) k
  | whileTest (condition : Expr) (body : Stmt) (k : Cont .flow) :
    Yields (.whileTest condition body k) k
  | whileBody (condition : Expr) (body : Stmt) (k : Cont .flow) :
    Yields (.whileBody condition body k) k
  | sequence (rest : List Stmt) (k : Cont .flow) : Yields (.sequence rest k) k

/-- What comes next where the interpreter is left alone and no error is found. -/
inductive Turn (it : Interpreter) : Control → Control → Prop
  -- expressions
  | literal (l : Literal) (k : Cont .value) :
    Turn it (.evaluate (.literal l) k) (.give (literalValue l) k)
  | group (inner : Expr) (k : Cont .value) :
    Turn it (.evaluate (.group inner) k) (.evaluate inner k)
  | unary (op : Token) (right : Expr) (k : Cont .value) :
    Turn it (.evaluate (.unary op right) k) (.evaluate right (.operand op k))
  | binary (left : Expr) (op : Token) (right : Expr) (k : Cont .value) :
    Turn it (.evaluate (.binary left op right) k) (.evaluate left (.leftOperand op right k))
  | logical (left : Expr) (op : Token) (right : Expr) (k : Cont .value) :
    Turn it (.evaluate (.logical left op right) k) (.evaluate left (.decision op right k))
  | read (id : Nat) (name : Token) (v : Value) (k : Cont .value)
    (found : (it.referred? id name.lexeme).bind (it.heap.get? · name.lexeme) = some v) :
    Turn it (.evaluate (.variable id name) k) (.give v k)
  | assign (id : Nat) (name : Token) (value : Expr) (k : Cont .value) :
    Turn it (.evaluate (.assign id name value) k) (.evaluate value (.assigned id name k))
  | call (callee : Expr) (paren : Token) (args : List Expr) (k : Cont .value) :
    Turn it (.evaluate (.call callee paren args) k) (.evaluate callee (.callee paren args k))
  | get (object : Expr) (name : Token) (k : Cont .value) :
    Turn it (.evaluate (.get object name) k) (.evaluate object (.getObject name k))
  | set (object : Expr) (name : Token) (value : Expr) (k : Cont .value) :
    Turn it (.evaluate (.set object name value) k) (.evaluate object (.setObject name value k))
  -- values within expressions
  | operated (op : Token) (v w : Value) (k : Cont .value) (value : prefixValue op.kind v = .ok w) :
    Turn it (.give v (.operand op k)) (.give w k)
  | rightOperand (op : Token) (right : Expr) (v : Value) (k : Cont .value) :
    Turn it (.give v (.leftOperand op right k)) (.evaluate right (.rightOperand op v k))
  | combined (op : Token) (left v w : Value) (k : Cont .value)
    (value : infixValue op.kind left v = .ok w) : Turn it (.give v (.rightOperand op left k)) (.give w k)
  | decided (op : Token) (right : Expr) (v : Value) (k : Cont .value)
    (decided : decides op.kind v = true) : Turn it (.give v (.decision op right k)) (.give v k)
  | undecided (op : Token) (right : Expr) (v : Value) (k : Cont .value)
    (undecided : decides op.kind v = false) :
    Turn it (.give v (.decision op right k)) (.evaluate right k)
  | noArgument (callee : Value) (paren : Token) (k : Cont .value) :
    Turn it (.give callee (.callee paren [] k)) (.call callee paren [] k)
  | firstArgument (callee : Value) (paren : Token) (e : Expr) (es : List Expr) (k : Cont .value) :
    Turn it (.give callee (.callee paren (e :: es) k)) (.evaluate e (.argument callee paren [] es k))
  | lastArgument (callee : Value) (paren : Token) (done : List Value) (v : Value) (k : Cont .value) :
    Turn it (.give v (.argument callee paren done [] k)) (.call callee paren (v :: done).reverse k)
  | nextArgument (callee : Value) (paren : Token) (done : List Value) (v : Value) (e : Expr)
    (es : List Expr) (k : Cont .value) :
    Turn it (.give v (.argument callee paren done (e :: es) k))
      (.evaluate e (.argument callee paren (v :: done) es k))
  | property (i : InstanceRef) (name : Token) (w : Value) (k : Cont .value)
    (found : it.heap.field? i name.lexeme = some w) :
    Turn it (.give (.instance i) (.getObject name k)) (.give w k)
  | target (i : InstanceRef) (name : Token) (value : Expr) (k : Cont .value) :
    Turn it (.give (.instance i) (.setObject name value k)) (.evaluate value (.setValue i name k))
  -- statements
  | expression (e : Expr) (k : Cont .flow) :
    Turn it (.execute (.expression e) k) (.evaluate e (.discarded k))
  | print (e : Expr) (k : Cont .flow) : Turn it (.execute (.print e) k) (.evaluate e (.printed k))
  | initializer (name : Token) (e : Expr) (k : Cont .flow) :
    Turn it (.execute (.var name (some e)) k) (.evaluate e (.initializer name k))
  | test (condition : Expr) (thenBranch : Stmt) (elseBranch : Option Stmt) (k : Cont .flow) :
    Turn it (.execute (.if condition thenBranch elseBranch) k)
      (.evaluate condition (.ifTest thenBranch elseBranch k))
  | loop (condition : Expr) (body : Stmt) (k : Cont .flow) :
    Turn it (.execute (.while condition body) k) (.evaluate condition (.whileTest condition body k))
  | returnValue (keyword : Token) (e : Expr) (k : Cont .flow) :
    Turn it (.execute (.return keyword (some e)) k) (.evaluate e (.returned k))
  | returnNil (keyword : Token) (k : Cont .flow) :
    Turn it (.execute (.return keyword none) k) (.finish (.returned .nil) k)
  | noStatement (k : Cont .flow) : Turn it (.executeAll [] k) (.finish .normal k)
  | statement (s : Stmt) (ss : List Stmt) (k : Cont .flow) :
    Turn it (.executeAll (s :: ss) k) (.execute s (.sequence ss k))
  -- values within statements
  | discarded (v : Value) (k : Cont .flow) : Turn it (.give v (.discarded k)) (.finish .normal k)
  | returned (v : Value) (k : Cont .flow) : Turn it (.give v (.returned k)) (.finish (.returned v) k)
  | thenBranch (v : Value) (thenBranch : Stmt) (elseBranch : Option Stmt) (k : Cont .flow)
    (holds : v.truthy = true) :
    Turn it (.give v (.ifTest thenBranch elseBranch k)) (.execute thenBranch k)
  | elseBranch (v : Value) (thenBranch elseBranch : Stmt) (k : Cont .flow) (fails : v.truthy = false) :
    Turn it (.give v (.ifTest thenBranch (some elseBranch) k)) (.execute elseBranch k)
  | noBranch (v : Value) (thenBranch : Stmt) (k : Cont .flow) (fails : v.truthy = false) :
    Turn it (.give v (.ifTest thenBranch none k)) (.finish .normal k)
  | body (v : Value) (condition : Expr) (body : Stmt) (k : Cont .flow) (holds : v.truthy = true) :
    Turn it (.give v (.whileTest condition body k)) (.execute body (.whileBody condition body k))
  | loopEnd (v : Value) (condition : Expr) (body : Stmt) (k : Cont .flow) (fails : v.truthy = false) :
    Turn it (.give v (.whileTest condition body k)) (.finish .normal k)
  -- ends of statements
  | rest (ss : List Stmt) (k : Cont .flow) :
    Turn it (.finish .normal (.sequence ss k)) (.executeAll ss k)
  | again (condition : Expr) (body : Stmt) (k : Cont .flow) :
    Turn it (.finish .normal (.whileBody condition body k))
      (.evaluate condition (.whileTest condition body k))
  | leaveSequence (v : Value) (ss : List Stmt) (k : Cont .flow) :
    Turn it (.finish (.returned v) (.sequence ss k)) (.finish (.returned v) k)
  | leaveLoop (v : Value) (condition : Expr) (body : Stmt) (k : Cont .flow) :
    Turn it (.finish (.returned v) (.whileBody condition body k)) (.finish (.returned v) k)
  -- errors, and the end of all
  | yield {a b : Answer} (e : RuntimeError) (k : Cont a) (k' : Cont b) (yields : k.Yields k') :
    Turn it (.raise e k) (.raise e k')
  | valueEnd (v : Value) : Turn it (.give v .value) (.ended (.value v))
  | flowEnd (f : Flow) : Turn it (.finish f .flow) (.ended (.flow f))
  | faultOfValue (e : RuntimeError) : Turn it (.raise e .value) (.ended (.fault e))
  | faultOfFlow (e : RuntimeError) : Turn it (.raise e .flow) (.ended (.fault e))
  | ended (o : Outcome) : Turn it (.ended o) (.ended o)

/-- The number of arguments that a value takes, if it can be called. -/
def arity? (it : Interpreter) : Value → Option Nat
  | .native n => (it.native? n).map (·.arity)
  | .function f => (it.heap.function? f).map (·.decl.params.length)
  | .class _ => some 0
  | _ => none

/-- What is to be done cannot be done: the error, and what waited for the value. -/
inductive Fail (it : Interpreter) : Control → RuntimeError → Cont .value → Prop
  | unread (id : Nat) (name : Token) (k : Cont .value)
    (none : (it.referred? id name.lexeme).bind (it.heap.get? · name.lexeme) = none) :
    Fail it (.evaluate (.variable id name) k) (.failure name .undefinedVariable) k
  | unwritten (id : Nat) (name : Token) (v : Value) (k : Cont .value)
    (none : it.referred? id name.lexeme = none) :
    Fail it (.give v (.assigned id name k)) (.failure name .undefinedVariable) k
  | operand (op : Token) (v : Value) (fault : Fault) (k : Cont .value)
    (value : prefixValue op.kind v = .error fault) :
    Fail it (.give v (.operand op k)) (.failure op fault) k
  | operands (op : Token) (left v : Value) (fault : Fault) (k : Cont .value)
    (value : infixValue op.kind left v = .error fault) :
    Fail it (.give v (.rightOperand op left k)) (.failure op fault) k
  | noProperty (i : InstanceRef) (name : Token) (k : Cont .value)
    (none : it.heap.field? i name.lexeme = none) :
    Fail it (.give (.instance i) (.getObject name k)) (.failure name .undefinedProperty) k
  | noObject (v : Value) (name : Token) (k : Cont .value) (other : ∀ i, v ≠ .instance i) :
    Fail it (.give v (.getObject name k)) (.failure name .propertyOfNonInstance) k
  | noTarget (v : Value) (name : Token) (value : Expr) (k : Cont .value)
    (other : ∀ i, v ≠ .instance i) :
    Fail it (.give v (.setObject name value k)) (.failure name .fieldOfNonInstance) k
  | uncallable (callee : Value) (paren : Token) (args : List Value) (k : Cont .value)
    (none : arity? it callee = none) :
    Fail it (.call callee paren args k) (.failure paren .notCallable) k
  | miscounted (callee : Value) (paren : Token) (args : List Value) (n : Nat) (k : Cont .value)
    (takes : arity? it callee = some n) (other : args.length ≠ n) :
    Fail it (.call callee paren args k) (.failure paren (.argumentCount n args.length)) k
  | refused (f : FunctionRef) (c : Closure) (paren : Token) (args : List Value) (k : Cont .value)
    (found : it.heap.function? f = some c) (arity : args.length = c.decl.params.length)
    (full : it.maxDepth ≤ it.depth) : Fail it (.call (.function f) paren args k) (.stackOverflow paren) k

/-- The interpreter in the new frame of a call. -/
def entered (it : Interpreter) (f : Closure) (args : List Value) : Interpreter :=
  { it.enterNew f.frame (parameterBindings f.decl.params args) with depth := it.depth + 1 }

/-- The interpreter at the end of a call. -/
def leave (it : Interpreter) (frame : FrameRef) : Interpreter :=
  { it with frame := frame, depth := it.depth - 1 }

/-- A class that is made while its name is there, bound to nothing. -/
def newClass (it : Interpreter) (name : String) : Value :=
  ((it.define it.frame name .nil).heap.newClass name).1

/-- The interpreter when the class has been made, and not been bound. -/
def withClass (it : Interpreter) (name : String) : Interpreter :=
  { it with heap := ((it.define it.frame name .nil).heap.newClass name).2 }

/-- The interpreter with what a print does to its sink. -/
def withPrinted (it : Interpreter) (v : Value) : Interpreter :=
  { it with sink := (it.sink.print (it.heap.text v ++ "\n")).2 }

/-- What a step can do. -/
inductive Rule : State → State → Prop
  | turn {it : Interpreter} {c c' : Control} (turn : Turn it c c') : Rule ⟨c, it⟩ ⟨c', it⟩
  | fail {it : Interpreter} {c : Control} {e : RuntimeError} {k : Cont .value} (fail : Fail it c e k) :
    Rule ⟨c, it⟩ ⟨.raise e k, it⟩
  -- declarations and assignments
  | varNil (it : Interpreter) (name : Token) (k : Cont .flow) :
    Rule ⟨.execute (.var name none) k, it⟩
      ⟨.finish .normal k, it.define it.frame name.lexeme .nil⟩
  | var (it : Interpreter) (name : Token) (v : Value) (k : Cont .flow) :
    Rule ⟨.give v (.initializer name k), it⟩ ⟨.finish .normal k, it.define it.frame name.lexeme v⟩
  | function (it : Interpreter) (decl : Function) (k : Cont .flow) :
    Rule ⟨.execute (.function decl) k, it⟩ (declareFunction it decl k)
  | «class» (it : Interpreter) (name : Token) (methods : List Function) (f : FrameRef) (k : Cont .flow)
    (found : (withClass it name.lexeme).heap.owner? it.frame name.lexeme = some f) :
    Rule ⟨.execute (.class name methods) k, it⟩
      ⟨.finish .normal k,
        (withClass it name.lexeme).define f name.lexeme (newClass it name.lexeme)⟩
  | lostClass (it : Interpreter) (name : Token) (methods : List Function) (k : Cont .flow)
    (none : (withClass it name.lexeme).heap.owner? it.frame name.lexeme = none) :
    Rule ⟨.execute (.class name methods) k, it⟩
      ⟨.raise (.failure name .undefinedVariable) k, withClass it name.lexeme⟩
  | write (it : Interpreter) (id : Nat) (name : Token) (f : FrameRef) (v : Value) (k : Cont .value)
    (found : it.referred? id name.lexeme = some f) :
    Rule ⟨.give v (.assigned id name k), it⟩ ⟨.give v k, it.define f name.lexeme v⟩
  | setField (it : Interpreter) (i : InstanceRef) (name : Token) (v : Value) (k : Cont .value) :
    Rule ⟨.give v (.setValue i name k), it⟩
      ⟨.give v k, { it with heap := it.heap.setField i name.lexeme v }⟩
  -- blocks and calls
  | block (it : Interpreter) (body : List Stmt) (k : Cont .flow) :
    Rule ⟨.execute (.block body) k, it⟩
      ⟨.executeAll body (.blockEnd it.frame k), it.enterNew it.frame .empty⟩
  | blockEnd (it : Interpreter) (f : Flow) (frame : FrameRef) (k : Cont .flow) :
    Rule ⟨.finish f (.blockEnd frame k), it⟩ ⟨.finish f k, it.enter frame⟩
  | blockFault (it : Interpreter) (e : RuntimeError) (frame : FrameRef) (k : Cont .flow) :
    Rule ⟨.raise e (.blockEnd frame k), it⟩ ⟨.raise e k, it.enter frame⟩
  | call (it : Interpreter) (f : FunctionRef) (c : Closure) (paren : Token) (args : List Value)
    (k : Cont .value) (found : it.heap.function? f = some c)
    (arity : args.length = c.decl.params.length) (room : it.depth < it.maxDepth) :
    Rule ⟨.call (.function f) paren args k, it⟩
      ⟨.executeAll c.decl.body (.callEnd it.frame k), entered it c args⟩
  | callEnd (it : Interpreter) (frame : FrameRef) (k : Cont .value) :
    Rule ⟨.finish .normal (.callEnd frame k), it⟩ ⟨.give .nil k, leave it frame⟩
  | callReturn (it : Interpreter) (v : Value) (frame : FrameRef) (k : Cont .value) :
    Rule ⟨.finish (.returned v) (.callEnd frame k), it⟩ ⟨.give v k, leave it frame⟩
  | callFault (it : Interpreter) (e : RuntimeError) (frame : FrameRef) (k : Cont .value) :
    Rule ⟨.raise e (.callEnd frame k), it⟩ ⟨.raise e k, leave it frame⟩
  -- natives, classes and output
  | native (it : Interpreter) (n : NativeRef) (native : Native) (paren : Token) (args : List Value)
    (v : Value) (k : Cont .value) (found : it.native? n = some native)
    (arity : args.length = native.arity)
    (answer : native.act ⟨it.heap, it.clock.reading, args⟩ = .ok v) :
    Rule ⟨.call (.native n) paren args k, it⟩ ⟨.give v k, { it with clock := it.clock.advance }⟩
  | nativeFault (it : Interpreter) (n : NativeRef) (native : Native) (paren : Token)
    (args : List Value) (message : String) (k : Cont .value) (found : it.native? n = some native)
    (arity : args.length = native.arity)
    (answer : native.act ⟨it.heap, it.clock.reading, args⟩ = .error message) :
    Rule ⟨.call (.native n) paren args k, it⟩
      ⟨.raise (.failure paren (.native message)) k, { it with clock := it.clock.advance }⟩
  | instantiate (it : Interpreter) (c : ClassRef) (paren : Token) (k : Cont .value) :
    Rule ⟨.call (.class c) paren [] k, it⟩
      ⟨.give (it.heap.newInstance c).1 k, { it with heap := (it.heap.newInstance c).2 }⟩
  | printed (it : Interpreter) (v : Value) (k : Cont .flow)
    (accepted : (it.sink.print (it.heap.text v ++ "\n")).1 = .ok ()) :
    Rule ⟨.give v (.printed k), it⟩ ⟨.finish .normal k, withPrinted it v⟩
  | unprinted (it : Interpreter) (v : Value) (refusal : Refusal) (k : Cont .flow)
    (refused : (it.sink.print (it.heap.text v ++ "\n")).1 = .error refusal) :
    Rule ⟨.give v (.printed k), it⟩ ⟨.raise (.output refusal) k, withPrinted it v⟩

/-! ## Steps -/

theorem Cont.Yields.raise_eq {a b : Answer} {k : Cont a} {k' : Cont b} (yields : k.Yields k')
    (it : Interpreter) (e : RuntimeError) : raise it e k = ⟨.raise e k', it⟩ := by
  cases yields <;> rfl

variable {it : Interpreter}

theorem Turn.step_eq {c c' : Control} (turn : Turn it c c') : State.step ⟨c, it⟩ = ⟨c', it⟩ := by
  cases turn with
  | read id name v k found => simp only [State.step, evaluate, readVariable, found]
  | operated op v w k value | combined op left v w k value =>
    simp only [State.step, give, value, giveOr]
  | decided op right v k decided => exact if_pos decided
  | undecided op right v k undecided => exact if_neg (Bool.eq_false_iff.1 undecided)
  | property i name w k found => simp only [State.step, give, found]
  | thenBranch v thenBranch elseBranch k holds => exact if_pos holds
  | body v condition body k holds => exact if_pos holds
  | elseBranch v thenBranch elseBranch k fails => exact if_neg (Bool.eq_false_iff.1 fails)
  | noBranch v thenBranch k fails => exact if_neg (Bool.eq_false_iff.1 fails)
  | loopEnd v condition body k fails => exact if_neg (Bool.eq_false_iff.1 fails)
  | yield e k k' yields => exact yields.raise_eq it e
  | _ => rfl

/-- A turn looks at the interpreter only where a variable or a property is read. -/
theorem Turn.of_reads {it' : Interpreter} {c c' : Control} (turn : Turn it c c')
    (read : ∀ id name k, c = .evaluate (.variable id name) k →
      (it'.referred? id name.lexeme).bind (it'.heap.get? · name.lexeme) =
        (it.referred? id name.lexeme).bind (it.heap.get? · name.lexeme))
    (field : ∀ i name k, c = .give (.instance i) (.getObject name k) →
      it'.heap.field? i name.lexeme = it.heap.field? i name.lexeme) : Turn it' c c' := by
  cases turn with
  | read id name v k found => exact .read id name v k ((read id name k rfl).trans found)
  | property i name w k found => exact .property i name w k ((field i name k rfl).trans found)
  | operated op v w k value => exact .operated op v w k value
  | combined op left v w k value => exact .combined op left v w k value
  | decided op right v k decided => exact .decided op right v k decided
  | undecided op right v k undecided => exact .undecided op right v k undecided
  | thenBranch v thenBranch elseBranch k holds => exact .thenBranch v thenBranch elseBranch k holds
  | elseBranch v thenBranch elseBranch k fails => exact .elseBranch v thenBranch elseBranch k fails
  | noBranch v thenBranch k fails => exact .noBranch v thenBranch k fails
  | body v condition body k holds => exact .body v condition body k holds
  | loopEnd v condition body k fails => exact .loopEnd v condition body k fails
  | yield e k k' yields => exact .yield e k k' yields
  | _ => constructor

/-- A value that cannot be called, or not with these arguments, is not called. -/
theorem call_of_arity? {callee : Value} {args : List Value}
    (other : ∀ n, arity? it callee = some n → args.length ≠ n) (paren : Token) (k : Cont .value) :
    call it callee paren args k = ⟨.raise (.failure paren
      (match arity? it callee with
        | some n => .argumentCount n args.length
        | none => .notCallable)) k, it⟩ := by
  cases callee with
  | native n =>
    simp only [call, arity?] at other ⊢
    cases found : it.native? n with
    | none => rfl
    | some native => exact if_neg (other native.arity (by rw [found]; rfl))
  | function f =>
    simp only [call, arity?] at other ⊢
    cases found : it.heap.function? f with
    | none => rfl
    | some c => exact if_neg (other c.decl.params.length (by rw [found]; rfl))
  | «class» c => exact if_neg (other 0 rfl)
  | _ => rfl

theorem Fail.step_eq {c : Control} {e : RuntimeError} {k : Cont .value} (fail : Fail it c e k) :
    State.step ⟨c, it⟩ = ⟨.raise e k, it⟩ := by
  cases fail with
  | unread id name k none => simp only [State.step, evaluate, readVariable, none]
  | unwritten id name v k none => simp only [State.step, give, writeVariable, none]
  | operand op v fault k value | operands op left v fault k value =>
    simp only [State.step, give, value, giveOr]
  | noProperty i name k none => simp only [State.step, give, none]
  | noObject v name k other | noTarget v name value k other =>
    cases v with
    | «instance» i => exact absurd rfl (other i)
    | _ => rfl
  | uncallable callee paren args k none =>
    have called := @call_of_arity? it callee args (by rw [none]; rintro n ⟨⟩) paren k
    rwa [none] at called
  | miscounted callee paren args n k takes other =>
    have called := @call_of_arity? it callee args (by rw [takes]; rintro m ⟨⟩; exact other) paren k
    rwa [takes] at called
  | refused f c paren args k found arity full =>
    simp only [State.step, call, found, if_pos arity, callFunction, ge_iff_le, if_pos full]

theorem execute_class (name : Token) (methods : List Function) (k : Cont .flow) :
    execute it (.class name methods) k =
      match (withClass it name.lexeme).heap.owner? it.frame name.lexeme with
      | some f => ⟨.finish .normal k, (withClass it name.lexeme).define f name.lexeme
          (newClass it name.lexeme)⟩
      | none => ⟨.raise (.failure name .undefinedVariable) k, withClass it name.lexeme⟩ := rfl

/-- Where a rule leads, the step goes. -/
theorem Rule.step_eq {e e' : State} (rule : Rule e e') : e.step = e' := by
  cases rule with
  | turn turn => exact turn.step_eq
  | fail fail => exact fail.step_eq
  | «class» it name methods f k found => rw [State.step, execute_class, found]
  | lostClass it name methods k none => rw [State.step, execute_class, none]
  | write it id name f v k found => simp only [State.step, give, writeVariable, found]
  | call it f c paren args k found arity room =>
    simp only [State.step, Eval.call, found, if_pos arity, callFunction, ge_iff_le,
      if_neg (Nat.not_le_of_lt room)]
    rfl
  | native it n native paren args v k found arity answer =>
    simp only [State.step, Eval.call, found, if_pos arity, callNative, answer]
    rfl
  | nativeFault it n native paren args message k found arity answer =>
    simp only [State.step, Eval.call, found, if_pos arity, callNative, answer]
    rfl
  | printed it v k accepted =>
    simp only [State.step, give, Eval.print, accepted]
    rfl
  | unprinted it v refusal k refused =>
    simp only [State.step, give, Eval.print, refused]
    rfl
  | _ => rfl

/-! ## There is always a rule -/

theorem exists_rule_evaluate (e : Expr) (k : Cont .value) : ∃ e', Rule ⟨.evaluate e k, it⟩ e' := by
  cases e with
  | literal => exact ⟨_, .turn (.literal ..)⟩
  | group => exact ⟨_, .turn (.group ..)⟩
  | unary => exact ⟨_, .turn (.unary ..)⟩
  | binary => exact ⟨_, .turn (.binary ..)⟩
  | logical => exact ⟨_, .turn (.logical ..)⟩
  | «variable» id name =>
    cases found : (it.referred? id name.lexeme).bind (it.heap.get? · name.lexeme) with
    | none => exact ⟨_, .fail (.unread _ _ _ found)⟩
    | some v => exact ⟨_, .turn (.read _ _ _ _ found)⟩
  | assign => exact ⟨_, .turn (.assign ..)⟩
  | call => exact ⟨_, .turn (.call ..)⟩
  | get => exact ⟨_, .turn (.get ..)⟩
  | set => exact ⟨_, .turn (.set ..)⟩

theorem exists_rule_execute (s : Stmt) (k : Cont .flow) : ∃ e', Rule ⟨.execute s k, it⟩ e' := by
  cases s with
  | expression => exact ⟨_, .turn (.expression ..)⟩
  | print => exact ⟨_, .turn (.print ..)⟩
  | var name value =>
    cases value with
    | none => exact ⟨_, .varNil ..⟩
    | some e => exact ⟨_, .turn (.initializer ..)⟩
  | block => exact ⟨_, .block ..⟩
  | «if» => exact ⟨_, .turn (.test ..)⟩
  | «while» => exact ⟨_, .turn (.loop ..)⟩
  | function => exact ⟨_, .function ..⟩
  | «return» keyword value =>
    cases value with
    | none => exact ⟨_, .turn (.returnNil ..)⟩
    | some e => exact ⟨_, .turn (.returnValue ..)⟩
  | «class» name methods =>
    cases found : (withClass it name.lexeme).heap.owner? it.frame name.lexeme with
    | none => exact ⟨_, .lostClass _ _ _ _ found⟩
    | some f => exact ⟨_, .class _ _ _ _ _ found⟩

theorem exists_rule_call (callee : Value) (paren : Token) (args : List Value) (k : Cont .value) :
    ∃ e', Rule ⟨.call callee paren args k, it⟩ e' := by
  cases takes : arity? it callee with
  | none => exact ⟨_, .fail (.uncallable _ _ _ _ takes)⟩
  | some n =>
    by_cases count : args.length = n
    · subst count
      cases callee with
      | native n =>
        obtain ⟨native, found, arity⟩ := Option.map_eq_some_iff.1 takes
        cases answer : native.act ⟨it.heap, it.clock.reading, args⟩ with
        | ok v => exact ⟨_, .native _ _ _ _ _ _ _ found arity.symm answer⟩
        | error message => exact ⟨_, .nativeFault _ _ _ _ _ _ _ found arity.symm answer⟩
      | function f =>
        obtain ⟨c, found, arity⟩ := Option.map_eq_some_iff.1 takes
        rcases Nat.lt_or_ge it.depth it.maxDepth with room | full
        · exact ⟨_, .call _ _ _ _ _ _ found arity.symm room⟩
        · exact ⟨_, .fail (.refused _ _ _ _ _ found arity.symm full)⟩
      | «class» c =>
        obtain rfl : args = [] := List.eq_nil_of_length_eq_zero (Option.some.inj takes).symm
        exact ⟨_, .instantiate ..⟩
      | _ => cases takes
    · exact ⟨_, .fail (.miscounted _ _ _ _ _ takes count)⟩

theorem exists_rule_give (v : Value) (k : Cont .value) : ∃ e', Rule ⟨.give v k, it⟩ e' := by
  cases k with
  | value => exact ⟨_, .turn (.valueEnd ..)⟩
  | operand op k =>
    cases value : prefixValue op.kind v with
    | ok w => exact ⟨_, .turn (.operated _ _ _ _ value)⟩
    | error fault => exact ⟨_, .fail (.operand _ _ _ _ value)⟩
  | leftOperand => exact ⟨_, .turn (.rightOperand ..)⟩
  | rightOperand op left k =>
    cases value : infixValue op.kind left v with
    | ok w => exact ⟨_, .turn (.combined _ _ _ _ _ value)⟩
    | error fault => exact ⟨_, .fail (.operands _ _ _ _ _ value)⟩
  | decision op right k =>
    cases decided : decides op.kind v with
    | true => exact ⟨_, .turn (.decided _ _ _ _ decided)⟩
    | false => exact ⟨_, .turn (.undecided _ _ _ _ decided)⟩
  | assigned id name k =>
    cases found : it.referred? id name.lexeme with
    | none => exact ⟨_, .fail (.unwritten _ _ _ _ found)⟩
    | some f => exact ⟨_, .write _ _ _ _ _ _ found⟩
  | callee paren args k =>
    cases args with
    | nil => exact ⟨_, .turn (.noArgument ..)⟩
    | cons e es => exact ⟨_, .turn (.firstArgument ..)⟩
  | argument callee paren done rest k =>
    cases rest with
    | nil => exact ⟨_, .turn (.lastArgument ..)⟩
    | cons e es => exact ⟨_, .turn (.nextArgument ..)⟩
  | getObject name k =>
    cases v with
    | «instance» i =>
      cases found : it.heap.field? i name.lexeme with
      | none => exact ⟨_, .fail (.noProperty _ _ _ found)⟩
      | some w => exact ⟨_, .turn (.property _ _ _ _ found)⟩
    | _ => exact ⟨_, .fail (.noObject _ _ _ (by rintro i ⟨⟩))⟩
  | setObject name value k =>
    cases v with
    | «instance» i => exact ⟨_, .turn (.target ..)⟩
    | _ => exact ⟨_, .fail (.noTarget _ _ _ _ (by rintro i ⟨⟩))⟩
  | setValue => exact ⟨_, .setField ..⟩
  | discarded => exact ⟨_, .turn (.discarded ..)⟩
  | printed k =>
    cases accepted : (it.sink.print (it.heap.text v ++ "\n")).1 with
    | ok => exact ⟨_, .printed _ _ _ accepted⟩
    | error refusal => exact ⟨_, .unprinted _ _ _ _ accepted⟩
  | initializer => exact ⟨_, .var ..⟩
  | returned => exact ⟨_, .turn (.returned ..)⟩
  | ifTest thenBranch elseBranch k =>
    cases holds : v.truthy with
    | true => exact ⟨_, .turn (.thenBranch _ _ _ _ holds)⟩
    | false =>
      cases elseBranch with
      | none => exact ⟨_, .turn (.noBranch _ _ _ holds)⟩
      | some s => exact ⟨_, .turn (.elseBranch _ _ _ _ holds)⟩
  | whileTest condition body k =>
    cases holds : v.truthy with
    | true => exact ⟨_, .turn (.body _ _ _ _ holds)⟩
    | false => exact ⟨_, .turn (.loopEnd _ _ _ _ holds)⟩

theorem exists_rule_finish (f : Flow) (k : Cont .flow) : ∃ e', Rule ⟨.finish f k, it⟩ e' := by
  cases k with
  | flow => exact ⟨_, .turn (.flowEnd ..)⟩
  | blockEnd => exact ⟨_, .blockEnd ..⟩
  | callEnd =>
    cases f with
    | normal => exact ⟨_, .callEnd ..⟩
    | returned v => exact ⟨_, .callReturn ..⟩
  | sequence =>
    cases f with
    | normal => exact ⟨_, .turn (.rest ..)⟩
    | returned v => exact ⟨_, .turn (.leaveSequence ..)⟩
  | whileBody =>
    cases f with
    | normal => exact ⟨_, .turn (.again ..)⟩
    | returned v => exact ⟨_, .turn (.leaveLoop ..)⟩

theorem exists_rule_raise (e : RuntimeError) {a : Answer} (k : Cont a) :
    ∃ e', Rule ⟨.raise e k, it⟩ e' := by
  cases k with
  | value => exact ⟨_, .turn (.faultOfValue ..)⟩
  | flow => exact ⟨_, .turn (.faultOfFlow ..)⟩
  | blockEnd => exact ⟨_, .blockFault ..⟩
  | callEnd => exact ⟨_, .callFault ..⟩
  | _ => exact ⟨_, .turn (.yield _ _ _ (by constructor))⟩

/-- Every step goes by a rule. -/
theorem step_rule (e : State) : Rule e e.step := by
  obtain ⟨e', rule⟩ : ∃ e', Rule e e' := by
    obtain ⟨control, it⟩ := e
    cases control with
    | evaluate e k => exact exists_rule_evaluate e k
    | execute s k => exact exists_rule_execute s k
    | executeAll ss k =>
      cases ss with
      | nil => exact ⟨_, .turn (.noStatement ..)⟩
      | cons s ss => exact ⟨_, .turn (.statement ..)⟩
    | call callee paren args k => exact exists_rule_call callee paren args k
    | give v k => exact exists_rule_give v k
    | finish f k => exact exists_rule_finish f k
    | raise e k => exact exists_rule_raise e k
    | ended o => exact ⟨_, .turn (.ended o)⟩
  rwa [rule.step_eq]

end Lox.Eval
