/-
The steps of the parser on tokens of known kinds: for each task, where a token that belongs there
leads, and where the parse goes on when the next token is none of those the task looks for.
-/
import Lox.Parse.Run
import Lox.Proofs.Grammar.Derivation
import Mathlib.Logic.Function.Iterate

namespace Lox.Parse

/-- The kind of the first token; the end of the tokens counts as the end of the source. -/
def firstKind : List Token → Kind
  | t :: _ => t.kind
  | [] => .eof

/-- A kind other than the end of the source does not come first just if no first token is of it. -/
theorem firstKind_ne_iff {ts : List Token} {k : Kind} (h : k ≠ .eof) :
    firstKind ts ≠ k ↔ ∀ u us, ts = u :: us → u.kind ≠ k := by
  cases ts with
  | nil => exact ⟨fun _ _ _ is => (nomatch is), fun _ => h.symm⟩
  | cons t ts =>
    refine ⟨fun ne u us is => ?_, fun ne => ne t ts rfl⟩
    cases is
    exact ne

namespace State

/-! ## Reached states -/

theorem step_of_ended {s : State} (h : s.ended = true) : s.step = s := by
  obtain ⟨task, rest, eof, n, errors⟩ := s
  cases task <;> first | rfl | cases h

/-- The first step of a parse does not change where it ends. -/
theorem run_step (s : State) : s.run = s.step.run := by
  by_cases h : s.ended = true
  · rw [step_of_ended h]
  · rw [run, if_neg h]

/-- Some number of steps leads from one state to the other. -/
inductive Leads : State → State → Prop
  | refl (s : State) : Leads s s
  | step {s s' : State} : Leads s.step s' → Leads s s'

namespace Leads

theorem trans {s t u : State} (h : Leads s t) (h' : Leads t u) : Leads s u := by
  induction h with
  | refl s => exact h'
  | step _ ih => exact .step (ih h')

theorem of_eq {s t : State} (h : s = t) : Leads s t := h ▸ refl s

theorem next {s t u : State} (hs : s.step = t) (h : Leads t u) : Leads s u := .step (hs ▸ h)

theorem of_iterate {s t : State} (k : Nat) (steps : State.step^[k] s = t) : Leads s t := by
  induction k generalizing s with
  | zero => exact .of_eq steps
  | succ k ih => exact .step (ih steps)

/-- A parse comes to the same end from every state on its way. -/
theorem run_eq {s t : State} (h : Leads s t) : s.run = t.run := by
  induction h with
  | refl s => rfl
  | step _ ih => rw [run_step, ih]

end Leads

/-! ## Taking a token and leaving it -/

section

variable {task left : Task} {t : Token} {ts : List Token} {eof : Token} {n : Nat}
  {errors : List StaticError} {p : Part} {kind : Kind} {what : Expected} {kp : Pending p}
  {taken : Token → Task}

theorem require_cons (h : t.kind = kind) :
    require ⟨task, t :: ts, eof, n, errors⟩ kind what kp taken = ⟨taken t, ts, eof, n, errors⟩ := by
  simp [require, h, take]

theorem branch_cons (h : t.kind = kind) :
    branch ⟨task, t :: ts, eof, n, errors⟩ kind taken left = ⟨taken t, ts, eof, n, errors⟩ := by
  simp [branch, h, take]

theorem branch_left (h : firstKind ts ≠ kind) :
    branch ⟨task, ts, eof, n, errors⟩ kind taken left = ⟨left, ts, eof, n, errors⟩ := by
  cases ts with
  | nil => rfl
  | cons t ts =>
    have : t.kind ≠ kind := h
    simp [branch, this, goTo]

theorem look_eq : look ⟨task, ts, eof, n, errors⟩ = firstKind ts := by cases ts <;> rfl

end

section

variable {t : Token} {ts : List Token} {eof : Token} {n : Nat} {errors : List StaticError}
  {k : Pending .statement} {kx : Pending .expression} {kb : Pending .body} {kf : Pending .function}
  {e : Expr} {es : List Expr} {stmt : Stmt} {done : List Stmt} {name : Token} {c : Callable}
  {l : Level} {i : Option Stmt} {x y : Option Expr} {fs : List Function} {ps : List Token}

/-! ## Expressions -/

theorem step_expression :
    step ⟨.expression kx, ts, eof, n, errors⟩ = ⟨.level .or (.assignment kx), ts, eof, n, errors⟩ :=
  rfl

theorem step_unary_operator (h : t.kind = .bang ∨ t.kind = .minus) :
    step ⟨.unary kx, t :: ts, eof, n, errors⟩ = ⟨.unary (.operand t kx), ts, eof, n, errors⟩ := by
  rcases h with h | h <;> simp [step, unary, look, h, take, next]

theorem step_unary_left (h : firstKind ts ≠ .bang) (h' : firstKind ts ≠ .minus) :
    step ⟨.unary kx, ts, eof, n, errors⟩ = ⟨.primary (.trailers kx), ts, eof, n, errors⟩ := by
  simp [step, unary, look_eq, goTo]

theorem step_primary_literal {v : Literal} (h : Grammar.literal? t.kind = some v) :
    step ⟨.primary kx, t :: ts, eof, n, errors⟩ =
      ⟨.giveExpression (.literal v) kx, ts, eof, n, errors⟩ := by
  unfold Grammar.literal? at h
  split at h <;> simp_all [step, primary, look, take]

theorem step_primary_identifier (h : t.kind = .identifier) :
    step ⟨.primary kx, t :: ts, eof, n, errors⟩ =
      ⟨.giveExpression (.variable n t) kx, ts, eof, n + 1, errors⟩ := by
  simp [step, primary, look, h, reference, next]

theorem step_primary_group (h : t.kind = .leftParen) :
    step ⟨.primary kx, t :: ts, eof, n, errors⟩ = ⟨.expression (.group kx), ts, eof, n, errors⟩ := by
  simp [step, primary, look, h, take]

theorem step_group_close (h : t.kind = .rightParen) :
    step ⟨.giveExpression e (.group kx), t :: ts, eof, n, errors⟩ =
      ⟨.giveExpression (.group e) kx, ts, eof, n, errors⟩ := by
  simp only [step, giveExpression, require_cons h]

theorem step_operators_take (h : l.admits t.kind = true) :
    step ⟨.giveExpression e (.operators l kx), t :: ts, eof, n, errors⟩ =
      ⟨operandTask l (.rightOperand l e t kx), ts, eof, n, errors⟩ := by
  simp [step, giveExpression, look, h, take, next]

theorem step_operators_left (h : l.admits (firstKind ts) = false) :
    step ⟨.giveExpression e (.operators l kx), ts, eof, n, errors⟩ =
      ⟨.giveExpression e kx, ts, eof, n, errors⟩ := by
  simp [step, giveExpression, look_eq, h, goTo]

theorem step_rightOperand {f : Expr} :
    step ⟨.giveExpression e (.rightOperand l f t kx), ts, eof, n, errors⟩ =
      ⟨.giveExpression (l.join f t e) (.operators l kx), ts, eof, n, errors⟩ := rfl

theorem step_assignment_take (h : t.kind = .equal) :
    step ⟨.giveExpression e (.assignment kx), t :: ts, eof, n, errors⟩ =
      ⟨.expression (.assigned e t kx), ts, eof, n, errors⟩ := by
  simp only [step, giveExpression, branch_cons h]

theorem step_assignment_left (h : firstKind ts ≠ .equal) :
    step ⟨.giveExpression e (.assignment kx), ts, eof, n, errors⟩ =
      ⟨.giveExpression e kx, ts, eof, n, errors⟩ := by
  simp only [step, giveExpression, branch_left h]

theorem step_trailers_call (h : t.kind = .leftParen) :
    step ⟨.giveExpression e (.trailers kx), t :: ts, eof, n, errors⟩ =
      ⟨.arguments e (.trailers kx), ts, eof, n, errors⟩ := by
  simp [step, giveExpression, trailers, look, h, take]

theorem step_trailers_dot (h : t.kind = .dot) :
    step ⟨.giveExpression e (.trailers kx), t :: ts, eof, n, errors⟩ =
      ⟨.property e (.trailers kx), ts, eof, n, errors⟩ := by
  simp [step, giveExpression, trailers, look, h, take]

theorem step_trailers_left (h : firstKind ts ≠ .leftParen) (h' : firstKind ts ≠ .dot) :
    step ⟨.giveExpression e (.trailers kx), ts, eof, n, errors⟩ =
      ⟨.giveExpression e kx, ts, eof, n, errors⟩ := by
  simp [step, giveExpression, trailers, look_eq, goTo]

theorem step_arguments_close (h : t.kind = .rightParen) :
    step ⟨.arguments e kx, t :: ts, eof, n, errors⟩ =
      ⟨.giveExpression (.call e t []) kx, ts, eof, n, errors⟩ := by
  simp only [step, branch_cons h]

theorem step_arguments_left (h : firstKind ts ≠ .rightParen) :
    step ⟨.arguments e kx, ts, eof, n, errors⟩ = ⟨.argument e [] kx, ts, eof, n, errors⟩ := by
  simp only [step, branch_left h]

theorem step_argument (h : es.length < maxArity) :
    step ⟨.argument e es kx, ts, eof, n, errors⟩ =
      ⟨.expression (.argument e es kx), ts, eof, n, errors⟩ := by
  simp [step, Nat.not_le.2 h, goTo]

theorem step_argument_comma {f : Expr} (h : t.kind = .comma) :
    step ⟨.giveExpression e (.argument f es kx), t :: ts, eof, n, errors⟩ =
      ⟨.argument f (e :: es) kx, ts, eof, n, errors⟩ := by
  simp [step, giveExpression, look, h, take]

theorem step_argument_close {f : Expr} (h : t.kind = .rightParen) :
    step ⟨.giveExpression e (.argument f es kx), t :: ts, eof, n, errors⟩ =
      ⟨.giveExpression (.call f t (e :: es).reverse) kx, ts, eof, n, errors⟩ := by
  simp [step, giveExpression, look, h, require, take]

theorem step_property (h : t.kind = .identifier) :
    step ⟨.property e kx, t :: ts, eof, n, errors⟩ =
      ⟨.giveExpression (.get e t) kx, ts, eof, n, errors⟩ := by
  simp only [step, require_cons h]

/-! ## Statements -/

theorem step_expression_end (h : t.kind = .semicolon) :
    step ⟨.giveExpression e (.expressionStatement k), t :: ts, eof, n, errors⟩ =
      ⟨.giveStatement (.expression e) k, ts, eof, n, errors⟩ := by
  simp only [step, giveExpression, require_cons h]

theorem step_statement_for (h : t.kind = .for) :
    step ⟨.statement k, t :: ts, eof, n, errors⟩ = ⟨.forOpen k, ts, eof, n, errors⟩ := by
  simp [step, statement, look, h, take]

theorem step_statement_if (h : t.kind = .if) :
    step ⟨.statement k, t :: ts, eof, n, errors⟩ = ⟨.ifOpen k, ts, eof, n, errors⟩ := by
  simp [step, statement, look, h, take]

theorem step_statement_print (h : t.kind = .print) :
    step ⟨.statement k, t :: ts, eof, n, errors⟩ =
      ⟨.expression (.printed k), ts, eof, n, errors⟩ := by
  simp [step, statement, look, h, take]

theorem step_statement_return (h : t.kind = .return) :
    step ⟨.statement k, t :: ts, eof, n, errors⟩ = ⟨.returnValue t k, ts, eof, n, errors⟩ := by
  simp [step, statement, look, h, take, next]

theorem step_statement_while (h : t.kind = .while) :
    step ⟨.statement k, t :: ts, eof, n, errors⟩ = ⟨.whileOpen k, ts, eof, n, errors⟩ := by
  simp [step, statement, look, h, take]

theorem step_statement_block (h : t.kind = .leftBrace) :
    step ⟨.statement k, t :: ts, eof, n, errors⟩ =
      ⟨.declarations [] (.block k), ts, eof, n, errors⟩ := by
  simp [step, statement, look, h, take]

/-- The words that start a statement other than an expression. -/
def startsWordStatement : Kind → Bool
  | .for | .if | .print | .return | .while | .leftBrace => true
  | _ => false

theorem step_statement_left (h : startsWordStatement (firstKind ts) = false) :
    step ⟨.statement k, ts, eof, n, errors⟩ =
      ⟨.expression (.expressionStatement k), ts, eof, n, errors⟩ := by
  simp only [step, statement, look_eq, goTo]
  split <;> simp_all [startsWordStatement]

theorem step_forOpen (h : t.kind = .leftParen) :
    step ⟨.forOpen k, t :: ts, eof, n, errors⟩ = ⟨.forInitializer k, ts, eof, n, errors⟩ := by
  simp only [step, require_cons h]

theorem step_forInitializer_none (h : t.kind = .semicolon) :
    step ⟨.forInitializer k, t :: ts, eof, n, errors⟩ = ⟨.forTest none k, ts, eof, n, errors⟩ := by
  simp [step, forInitializer, look, h, take]

theorem step_forInitializer_var (h : t.kind = .var) :
    step ⟨.forInitializer k, t :: ts, eof, n, errors⟩ =
      ⟨.variableName (.forInitializer k), ts, eof, n, errors⟩ := by
  simp [step, forInitializer, look, h, take]

theorem step_forInitializer_left (h : firstKind ts ≠ .semicolon) (h' : firstKind ts ≠ .var) :
    step ⟨.forInitializer k, ts, eof, n, errors⟩ =
      ⟨.expression (.expressionStatement (.forInitializer k)), ts, eof, n, errors⟩ := by
  simp [step, forInitializer, look_eq, goTo]

theorem step_forTest_none (h : t.kind = .semicolon) :
    step ⟨.forTest i k, t :: ts, eof, n, errors⟩ = ⟨.forStep i none k, ts, eof, n, errors⟩ := by
  simp only [step, branch_cons h]

theorem step_forTest_left (h : firstKind ts ≠ .semicolon) :
    step ⟨.forTest i k, ts, eof, n, errors⟩ =
      ⟨.expression (.forTest i k), ts, eof, n, errors⟩ := by
  simp only [step, branch_left h]

theorem step_forTest_end (h : t.kind = .semicolon) :
    step ⟨.giveExpression e (.forTest i k), t :: ts, eof, n, errors⟩ =
      ⟨.forStep i (some e) k, ts, eof, n, errors⟩ := by
  simp only [step, giveExpression, require_cons h]

theorem step_forStep_none (h : t.kind = .rightParen) :
    step ⟨.forStep i x k, t :: ts, eof, n, errors⟩ =
      ⟨.statement (.forBody i x none k), ts, eof, n, errors⟩ := by
  simp only [step, branch_cons h]

theorem step_forStep_left (h : firstKind ts ≠ .rightParen) :
    step ⟨.forStep i x k, ts, eof, n, errors⟩ =
      ⟨.expression (.forStep i x k), ts, eof, n, errors⟩ := by
  simp only [step, branch_left h]

theorem step_forStep_close (h : t.kind = .rightParen) :
    step ⟨.giveExpression e (.forStep i x k), t :: ts, eof, n, errors⟩ =
      ⟨.statement (.forBody i x (some e) k), ts, eof, n, errors⟩ := by
  simp only [step, giveExpression, require_cons h]

theorem step_ifOpen (h : t.kind = .leftParen) :
    step ⟨.ifOpen k, t :: ts, eof, n, errors⟩ = ⟨.expression (.ifTest k), ts, eof, n, errors⟩ := by
  simp only [step, require_cons h]

theorem step_ifTest_close (h : t.kind = .rightParen) :
    step ⟨.giveExpression e (.ifTest k), t :: ts, eof, n, errors⟩ =
      ⟨.statement (.thenBranch e k), ts, eof, n, errors⟩ := by
  simp only [step, giveExpression, require_cons h]

theorem step_thenBranch_else (h : t.kind = .else) :
    step ⟨.giveStatement stmt (.thenBranch e k), t :: ts, eof, n, errors⟩ =
      ⟨.statement (.elseBranch e stmt k), ts, eof, n, errors⟩ := by
  simp only [step, giveStatement, branch_cons h]

theorem step_thenBranch_left (h : firstKind ts ≠ .else) :
    step ⟨.giveStatement stmt (.thenBranch e k), ts, eof, n, errors⟩ =
      ⟨.giveStatement (.if e stmt none) k, ts, eof, n, errors⟩ := by
  simp only [step, giveStatement, branch_left h]

theorem step_whileOpen (h : t.kind = .leftParen) :
    step ⟨.whileOpen k, t :: ts, eof, n, errors⟩ =
      ⟨.expression (.whileTest k), ts, eof, n, errors⟩ := by
  simp only [step, require_cons h]

theorem step_whileTest_close (h : t.kind = .rightParen) :
    step ⟨.giveExpression e (.whileTest k), t :: ts, eof, n, errors⟩ =
      ⟨.statement (.whileBody e k), ts, eof, n, errors⟩ := by
  simp only [step, giveExpression, require_cons h]

theorem step_print_end (h : t.kind = .semicolon) :
    step ⟨.giveExpression e (.printed k), t :: ts, eof, n, errors⟩ =
      ⟨.giveStatement (.print e) k, ts, eof, n, errors⟩ := by
  simp only [step, giveExpression, require_cons h]

theorem step_returnValue_none (h : t.kind = .semicolon) :
    step ⟨.returnValue name k, t :: ts, eof, n, errors⟩ =
      ⟨.giveStatement (.return name none) k, ts, eof, n, errors⟩ := by
  simp only [step, branch_cons h]

theorem step_returnValue_left (h : firstKind ts ≠ .semicolon) :
    step ⟨.returnValue name k, ts, eof, n, errors⟩ =
      ⟨.expression (.returned name k), ts, eof, n, errors⟩ := by
  simp only [step, branch_left h]

theorem step_return_end (h : t.kind = .semicolon) :
    step ⟨.giveExpression e (.returned name k), t :: ts, eof, n, errors⟩ =
      ⟨.giveStatement (.return name (some e)) k, ts, eof, n, errors⟩ := by
  simp only [step, giveExpression, require_cons h]

/-! ## Declarations -/

theorem step_declarations_close (h : t.kind = .rightBrace) :
    step ⟨.declarations done kb, t :: ts, eof, n, errors⟩ =
      ⟨.giveBody done.reverse kb, ts, eof, n, errors⟩ := by
  simp [step, h, take]

theorem step_declarations_more (h : t.kind ≠ .rightBrace) :
    step ⟨.declarations done kb, t :: ts, eof, n, errors⟩ =
      ⟨.declaration (.declarations done kb), t :: ts, eof, n, errors⟩ := by
  simp [step, h, goTo]

theorem step_declared :
    step ⟨.giveStatement stmt (.declarations done kb), ts, eof, n, errors⟩ =
      ⟨.declarations (stmt :: done) kb, ts, eof, n, errors⟩ := rfl

theorem step_program_more :
    step ⟨.program done, t :: ts, eof, n, errors⟩ =
      ⟨.declaration (.program done), t :: ts, eof, n, errors⟩ := rfl

theorem step_program_declared :
    step ⟨.giveStatement stmt (.program done), ts, eof, n, errors⟩ =
      ⟨.program (stmt :: done), ts, eof, n, errors⟩ := rfl

/-- Behind its last token a program is finished. -/
theorem run_program_end :
    run ⟨.program done, [], eof, n, errors⟩ = ⟨.finished done.reverse, [], eof, n, errors⟩ := by
  rw [run_step]
  simp [step, goTo, run, ended]

theorem step_declaration_class (h : t.kind = .class) :
    step ⟨.declaration k, t :: ts, eof, n, errors⟩ = ⟨.className k, ts, eof, n, errors⟩ := by
  simp [step, declaration, look, h, take]

theorem step_declaration_fun (h : t.kind = .fun) :
    step ⟨.declaration k, t :: ts, eof, n, errors⟩ =
      ⟨.callableName .function (.declared k), ts, eof, n, errors⟩ := by
  simp [step, declaration, look, h, take]

theorem step_declaration_var (h : t.kind = .var) :
    step ⟨.declaration k, t :: ts, eof, n, errors⟩ = ⟨.variableName k, ts, eof, n, errors⟩ := by
  simp [step, declaration, look, h, take]

theorem step_declaration_left (h : firstKind ts ≠ .class) (h' : firstKind ts ≠ .fun)
    (h'' : firstKind ts ≠ .var) :
    step ⟨.declaration k, ts, eof, n, errors⟩ = ⟨.statement k, ts, eof, n, errors⟩ := by
  simp [step, declaration, look_eq, goTo]

theorem step_variableName (h : t.kind = .identifier) :
    step ⟨.variableName k, t :: ts, eof, n, errors⟩ = ⟨.variableValue t k, ts, eof, n, errors⟩ := by
  simp only [step, require_cons h]

theorem step_variableValue_equal (h : t.kind = .equal) :
    step ⟨.variableValue name k, t :: ts, eof, n, errors⟩ =
      ⟨.expression (.initializer name k), ts, eof, n, errors⟩ := by
  simp [step, look, h, take]

theorem step_variableValue_end (h : t.kind = .semicolon) :
    step ⟨.variableValue name k, t :: ts, eof, n, errors⟩ =
      ⟨.giveStatement (.var name none) k, ts, eof, n, errors⟩ := by
  simp [step, look, h, require, take]

theorem step_initializer_end (h : t.kind = .semicolon) :
    step ⟨.giveExpression e (.initializer name k), t :: ts, eof, n, errors⟩ =
      ⟨.giveStatement (.var name (some e)) k, ts, eof, n, errors⟩ := by
  simp only [step, giveExpression, require_cons h]

theorem step_className (h : t.kind = .identifier) :
    step ⟨.className k, t :: ts, eof, n, errors⟩ = ⟨.classOpen t k, ts, eof, n, errors⟩ := by
  simp only [step, require_cons h]

theorem step_classOpen (h : t.kind = .leftBrace) :
    step ⟨.classOpen name k, t :: ts, eof, n, errors⟩ = ⟨.methods name [] k, ts, eof, n, errors⟩ := by
  simp only [step, require_cons h]

theorem step_methods_close (h : t.kind = .rightBrace) :
    step ⟨.methods name fs k, t :: ts, eof, n, errors⟩ =
      ⟨.giveStatement (.class name fs.reverse) k, ts, eof, n, errors⟩ := by
  simp [step, h, take]

theorem step_methods_more (h : t.kind ≠ .rightBrace) :
    step ⟨.methods name fs k, t :: ts, eof, n, errors⟩ =
      ⟨.callableName .method (.method name fs k), t :: ts, eof, n, errors⟩ := by
  simp [step, h, goTo]

theorem step_method {f : Function} :
    step ⟨.giveFunction f (.method name fs k), ts, eof, n, errors⟩ =
      ⟨.methods name (f :: fs) k, ts, eof, n, errors⟩ := rfl

theorem step_callableName (h : t.kind = .identifier) :
    step ⟨.callableName c kf, t :: ts, eof, n, errors⟩ = ⟨.callableOpen c t kf, ts, eof, n, errors⟩ := by
  simp only [step, require_cons h]

theorem step_callableOpen (h : t.kind = .leftParen) :
    step ⟨.callableOpen c name kf, t :: ts, eof, n, errors⟩ =
      ⟨.parameters c name kf, ts, eof, n, errors⟩ := by
  simp only [step, require_cons h]

theorem step_parameters_close (h : t.kind = .rightParen) :
    step ⟨.parameters c name kf, t :: ts, eof, n, errors⟩ =
      ⟨.callableBody c name [] kf, ts, eof, n, errors⟩ := by
  simp only [step, branch_cons h]

theorem step_parameters_left (h : firstKind ts ≠ .rightParen) :
    step ⟨.parameters c name kf, ts, eof, n, errors⟩ =
      ⟨.parameter c name [] kf, ts, eof, n, errors⟩ := by
  simp only [step, branch_left h]

theorem step_parameter (h : t.kind = .identifier) (hn : ps.length < maxArity) :
    step ⟨.parameter c name ps kf, t :: ts, eof, n, errors⟩ =
      ⟨.parameterEnd c name (t :: ps) kf, ts, eof, n, errors⟩ := by
  simp [step, Nat.not_le.2 hn, require, h, take]

theorem step_parameterEnd_comma (h : t.kind = .comma) :
    step ⟨.parameterEnd c name ps kf, t :: ts, eof, n, errors⟩ =
      ⟨.parameter c name ps kf, ts, eof, n, errors⟩ := by
  simp [step, look, h, take]

theorem step_parameterEnd_close (h : t.kind = .rightParen) :
    step ⟨.parameterEnd c name ps kf, t :: ts, eof, n, errors⟩ =
      ⟨.callableBody c name ps.reverse kf, ts, eof, n, errors⟩ := by
  simp [step, look, h, require, take]

theorem step_callableBody (h : t.kind = .leftBrace) :
    step ⟨.callableBody c name ps kf, t :: ts, eof, n, errors⟩ =
      ⟨.declarations [] (.functionBody name ps kf), ts, eof, n, errors⟩ := by
  simp only [step, require_cons h]

end

end State

/-- What a parse comes to, read off the state at the end of its tokens. -/
theorem program_of_leads {n m : Nat} {tokens : List Token} {done : List Stmt} {eof : Token}
    {errors : List StaticError}
    (leads : State.Leads (.start n tokens) ⟨.program done, [], eof, m, errors⟩) :
    program n tokens =
      ⟨if errors.isEmpty then .ok done.reverse else .error errors.reverse, m⟩ := by
  have ends : (State.start n tokens).run = ⟨.finished done.reverse, [], eof, m, errors⟩ := by
    rw [leads.run_eq, State.run_program_end]
  simp only [program, ends, State.statements]

end Lox.Parse
