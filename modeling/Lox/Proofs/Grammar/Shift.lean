/-
Parses of tokens that stand elsewhere, with references counted from elsewhere. The parser looks at
nothing of a token but its kind, and it makes ids and never looks at them. So a parse of other tokens
of the same kinds, which starts to count further on, takes the same steps, with each token replaced
and each id greater (`step_shift`). It finds the same errors, or the same tree, but for tokens and ids
(`program_map`, `program_shift`).
-/
import Lox.Parse.Run
import Lox.Proofs.Syntax.Map

namespace Lox

theorem Expr.mapAll_eq (ids : Nat → Nat) (token : Token → Token) (es : List Expr) :
    Expr.mapAll ids token es = es.map (Expr.map ids token) := by
  induction es with
  | nil => rfl
  | cons e es ih => rw [mapAll, ih, List.map_cons]

theorem Stmt.mapAll_eq (ids : Nat → Nat) (token : Token → Token) (ss : List Stmt) :
    Stmt.mapAll ids token ss = ss.map (Stmt.map ids token) := by
  induction ss with
  | nil => rfl
  | cons s ss ih => rw [mapAll, ih, List.map_cons]

theorem Stmt.mapMethods_eq (ids : Nat → Nat) (token : Token → Token) (fs : List Function) :
    Stmt.mapMethods ids token fs = fs.map (FunctionOf.mapTokens ids token) := by
  induction fs with
  | nil => rfl
  | cons f fs ih =>
    obtain ⟨name, params, body⟩ := f
    rw [mapMethods, ih, List.map_cons, FunctionOf.mapTokens]

namespace Parse

/-! ## Shifted states -/

/-- Other tokens of the same kinds, and ids that are so much greater. -/
structure Shift where
  further : Nat
  token : Token → Token
  kind_token : ∀ t, (token t).kind = t.kind
  /-- Other lines for errors without a token. The parser has no such errors. -/
  line : Nat → Nat

/-- The tokens as they are, and ids that are so much greater. -/
def Shift.ids (d : Nat) : Shift := ⟨d, id, fun _ => rfl, id⟩

section

variable (m : Shift)

/-- The expression with its tokens and ids shifted. -/
def shiftExpr : Expr → Expr := Expr.map (· + m.further) m.token

def shiftStmt : Stmt → Stmt := Stmt.map (· + m.further) m.token

def shiftFunction : Function → Function := FunctionOf.mapTokens (· + m.further) m.token

/-- What waits, with the tokens and ids in it shifted. -/
@[simp] def Pending.shift : {p : Part} → Pending p → Pending p
  | _, .assignment k => .assignment k.shift
  | _, .assigned target equals k => .assigned (shiftExpr m target) (m.token equals) k.shift
  | _, .operators l k => .operators l k.shift
  | _, .rightOperand l left op k => .rightOperand l (shiftExpr m left) (m.token op) k.shift
  | _, .operand op k => .operand (m.token op) k.shift
  | _, .trailers k => .trailers k.shift
  | _, .argument callee done k =>
    .argument (shiftExpr m callee) (done.map (shiftExpr m)) k.shift
  | _, .group k => .group k.shift
  | _, .initializer name k => .initializer (m.token name) k.shift
  | _, .ifTest k => .ifTest k.shift
  | _, .whileTest k => .whileTest k.shift
  | _, .printed k => .printed k.shift
  | _, .returned keyword k => .returned (m.token keyword) k.shift
  | _, .expressionStatement k => .expressionStatement k.shift
  | _, .forTest before k => .forTest (before.map (shiftStmt m)) k.shift
  | _, .forStep before test k =>
    .forStep (before.map (shiftStmt m)) (test.map (shiftExpr m)) k.shift
  | _, .program done => .program (done.map (shiftStmt m))
  | _, .declarations done k => .declarations (done.map (shiftStmt m)) k.shift
  | _, .thenBranch condition k => .thenBranch (shiftExpr m condition) k.shift
  | _, .elseBranch condition other k =>
    .elseBranch (shiftExpr m condition) (shiftStmt m other) k.shift
  | _, .whileBody condition k => .whileBody (shiftExpr m condition) k.shift
  | _, .forInitializer k => .forInitializer k.shift
  | _, .forBody before test step k =>
    .forBody (before.map (shiftStmt m)) (test.map (shiftExpr m)) (step.map (shiftExpr m))
      k.shift
  | _, .block k => .block k.shift
  | _, .functionBody name params k => .functionBody (m.token name) (params.map m.token) k.shift
  | _, .declared k => .declared k.shift
  | _, .method name done k => .method (m.token name) (done.map (shiftFunction m)) k.shift

/-- The task with the tokens and ids in it shifted. -/
@[simp] def Task.shift : Task → Task
  | program done => program (done.map (shiftStmt m))
  | declarations done k => declarations (done.map (shiftStmt m)) (k.shift m)
  | declaration k => declaration (k.shift m)
  | className k => className (k.shift m)
  | classOpen name k => classOpen (m.token name) (k.shift m)
  | methods name done k => methods (m.token name) (done.map (shiftFunction m)) (k.shift m)
  | callableName c k => callableName c (k.shift m)
  | callableOpen c name k => callableOpen c (m.token name) (k.shift m)
  | parameters c name k => parameters c (m.token name) (k.shift m)
  | parameter c name done k => parameter c (m.token name) (done.map m.token) (k.shift m)
  | parameterEnd c name done k => parameterEnd c (m.token name) (done.map m.token) (k.shift m)
  | callableBody c name params k => callableBody c (m.token name) (params.map m.token) (k.shift m)
  | variableName k => variableName (k.shift m)
  | variableValue name k => variableValue (m.token name) (k.shift m)
  | statement k => statement (k.shift m)
  | forOpen k => forOpen (k.shift m)
  | forInitializer k => forInitializer (k.shift m)
  | forTest initializer k => forTest (initializer.map (shiftStmt m)) (k.shift m)
  | forStep initializer test k =>
    forStep (initializer.map (shiftStmt m)) (test.map (shiftExpr m)) (k.shift m)
  | ifOpen k => ifOpen (k.shift m)
  | whileOpen k => whileOpen (k.shift m)
  | returnValue keyword k => returnValue (m.token keyword) (k.shift m)
  | expression k => expression (k.shift m)
  | level l k => level l (k.shift m)
  | unary k => unary (k.shift m)
  | primary k => primary (k.shift m)
  | arguments callee k => arguments (shiftExpr m callee) (k.shift m)
  | argument callee done k =>
    argument (shiftExpr m callee) (done.map (shiftExpr m)) (k.shift m)
  | property object k => property (shiftExpr m object) (k.shift m)
  | giveExpression e k => giveExpression (shiftExpr m e) (k.shift m)
  | giveStatement s k => giveStatement (shiftStmt m s) (k.shift m)
  | giveFunction f k => giveFunction (shiftFunction m f) (k.shift m)
  | giveBody body k => giveBody (body.map (shiftStmt m)) (k.shift m)
  | fail e k => fail (e.map m.token m.line) (k.shift m)
  | finished done => finished (done.map (shiftStmt m))

/-- The parse with its tokens and ids shifted. -/
def State.shift (s : State) : State where
  task := s.task.shift m
  rest := s.rest.map m.token
  eof := m.token s.eof
  nextId := s.nextId + m.further
  errors := s.errors.map (StaticError.map m.token m.line)

end

/-! ## Shifted trees -/

section

variable {m : Shift}

@[simp] theorem shiftExpr_join (l : Level) (left : Expr) (op : Token) (right : Expr) :
    shiftExpr m (l.join left op right) =
      l.join (shiftExpr m left) (m.token op) (shiftExpr m right) := by
  cases l <;> simp [Level.join, shiftExpr]

@[simp] theorem shiftStmt_forLoop (initializer : Option Stmt) (test step : Option Expr)
    (body : Stmt) : shiftStmt m (forLoop initializer test step body) =
      forLoop (initializer.map (shiftStmt m)) (test.map (shiftExpr m)) (step.map (shiftExpr m))
        (shiftStmt m body) := by
  cases initializer <;> cases test <;> cases step <;> simp [forLoop, shiftStmt, shiftExpr]

/-! ## Shifted steps -/

namespace State

theorem require_shift (s : State) (kind : Kind) (what : Expected) {p : Part} (k : Pending p)
    {task task' : Token → Task} (h : ∀ t, task' (m.token t) = (task t).shift m) :
    (s.shift m).require kind what (k.shift m) task' = (s.require kind what k task).shift m := by
  obtain ⟨current, rest, eof, n, errors⟩ := s
  cases rest with
  | nil => rfl
  | cons t ts =>
    simp only [require, shift, List.map_cons, m.kind_token]
    split
    · rw [h]
      rfl
    · rfl

theorem branch_shift (s : State) (kind : Kind) {taken taken' : Token → Task} {left left' : Task}
    (h : ∀ t, taken' (m.token t) = (taken t).shift m) (h' : left' = left.shift m) :
    (s.shift m).branch kind taken' left' = (s.branch kind taken left).shift m := by
  obtain ⟨current, rest, eof, n, errors⟩ := s
  subst h'
  cases rest with
  | nil => rfl
  | cons t ts =>
    simp only [branch, shift, List.map_cons, m.kind_token]
    split
    · rw [h]
      rfl
    · rfl

@[simp] theorem look_shift (s : State) : (s.shift m).look = s.look := by
  obtain ⟨task, rest, eof, n, errors⟩ := s
  cases rest with
  | nil => rfl
  | cons t ts => exact m.kind_token t

@[simp] theorem rest_shift (s : State) : (s.shift m).rest = s.rest.map m.token := rfl

@[simp] theorem next_shift (s : State) : (s.shift m).next = m.token s.next := by
  obtain ⟨task, rest, eof, n, errors⟩ := s
  cases rest <;> rfl

theorem goTo_shift (s : State) {task task' : Task} (h : task' = task.shift m) :
    (s.shift m).goTo task' = (s.goTo task).shift m := by
  subst h
  rfl

theorem take_shift (s : State) {task task' : Task} (h : task' = task.shift m) :
    (s.shift m).take task' = (s.take task).shift m := by
  subst h
  simp [take, shift, List.map_tail]

theorem missing_shift (s : State) (what : Expected) {p : Part} (k : Pending p) :
    (s.shift m).missing what (k.shift m) = (s.missing what k).shift m := by
  unfold missing
  rw [next_shift]
  rfl

theorem note_shift (s : State) (fault : SyntaxFault) :
    (s.shift m).note fault = (s.note fault).shift m := by
  unfold note
  rw [next_shift]
  rfl

theorem operandTask_shift (l : Level) (k : Pending .expression) :
    operandTask l (k.shift m) = (operandTask l k).shift m := by
  cases l <;> rfl

theorem assign_shift (s : State) (target : Expr) (equals : Token) (value : Expr)
    (k : Pending .expression) :
    (s.shift m).assign (shiftExpr m target) (m.token equals) (shiftExpr m value) (k.shift m) =
      (s.assign target equals value k).shift m := by
  -- only an assignment to a name draws an id
  have counted : s.nextId + m.further + 1 = s.nextId + 1 + m.further :=
    Nat.add_right_comm _ m.further 1
  cases target with
  | «variable» id name =>
    simp [assign, shiftExpr, shift, counted]
  | _ => rfl

theorem giveExpression_shift (s : State) (e : Expr) (k : Pending .expression) :
    (s.shift m).giveExpression (shiftExpr m e) (k.shift m) = (s.giveExpression e k).shift m := by
  cases k with
  | assignment k => exact branch_shift s .equal (fun _ => rfl) rfl
  | assigned target equals k => exact assign_shift s target equals e k
  | operators l k =>
    simp only [Pending.shift, giveExpression, look_shift, next_shift]
    by_cases admitted : l.admits s.look = true
    · rw [if_pos admitted, if_pos admitted]
      exact take_shift s (operandTask_shift l (.rightOperand l e s.next k))
    · rw [if_neg admitted, if_neg admitted]
      rfl
  | rightOperand l left op k => exact goTo_shift s (by simp)
  | operand op k => rfl
  | trailers k =>
    simp only [Pending.shift, giveExpression, trailers, look_shift]
    split
    · exact take_shift s rfl
    · exact take_shift s rfl
    · rfl
  | argument callee done k =>
    simp only [Pending.shift, giveExpression, look_shift]
    split
    · exact take_shift s rfl
    · refine require_shift s .rightParen .argumentsClose k fun paren => ?_
      simp [shiftExpr, Expr.mapAll_eq, List.map_reverse]
  | group k | initializer name k | ifTest k | whileTest k | printed k | returned keyword k
  | expressionStatement k | forTest initializer k | forStep initializer test k =>
    exact require_shift s _ _ k fun _ => rfl

theorem giveStatement_shift (s : State) (stmt : Stmt) (k : Pending .statement) :
    (s.shift m).giveStatement (shiftStmt m stmt) (k.shift m) = (s.giveStatement stmt k).shift m := by
  cases k with
  | thenBranch condition k => exact branch_shift s .else (fun _ => rfl) rfl
  | forBody initializer test step k => exact goTo_shift s (by simp)
  | _ => rfl

theorem giveFunction_shift (s : State) (f : Function) (k : Pending .function) :
    (s.shift m).giveFunction (shiftFunction m f) (k.shift m) = (s.giveFunction f k).shift m := by
  cases k with
  | declared k =>
    obtain ⟨name, params, body⟩ := f
    exact goTo_shift s (by simp [shiftStmt, shiftFunction, FunctionOf.mapTokens])
  | method className done k => rfl

theorem giveBody_shift (s : State) (body : List Stmt) (k : Pending .body) :
    (s.shift m).giveBody (body.map (shiftStmt m)) (k.shift m) = (s.giveBody body k).shift m := by
  cases k with
  | block k => exact goTo_shift s (by simp [shiftStmt, Stmt.mapAll_eq])
  | functionBody name params k =>
    exact goTo_shift s (by simp [shiftFunction, FunctionOf.mapTokens, Stmt.mapAll_eq, shiftStmt])

theorem skipAfter_map (m : Shift) (t : Token) (ts : List Token) :
    skipAfter (m.token t) (ts.map m.token) = (skipAfter t ts).map m.token := by
  induction ts generalizing t with
  | nil => rfl
  | cons u us ih =>
    simp only [List.map_cons, skipAfter, m.kind_token, ih]
    split <;> rfl

theorem synchronize_map (m : Shift) (ts : List Token) :
    synchronize (ts.map m.token) = (synchronize ts).map m.token := by
  cases ts with
  | nil => rfl
  | cons t ts => exact skipAfter_map m t ts

theorem fail_shift (s : State) (e : StaticError) {p : Part} (k : Pending p) :
    (s.shift m).fail (e.map m.token m.line) (k.shift m) = (s.fail e k).shift m := by
  cases k with
  | program done | declarations done k => simp [fail, shift, synchronize_map]
  | _ => rfl

theorem declaration_shift (s : State) (k : Pending .statement) :
    (s.shift m).declaration (k.shift m) = (s.declaration k).shift m := by
  simp only [declaration, look_shift]
  split
  case h_4 => rfl
  all_goals exact take_shift s rfl

theorem statement_shift (s : State) (k : Pending .statement) :
    (s.shift m).statement (k.shift m) = (s.statement k).shift m := by
  simp only [statement, look_shift, next_shift]
  split
  case h_7 => rfl
  all_goals exact take_shift s rfl

theorem forInitializer_shift (s : State) (k : Pending .statement) :
    (s.shift m).forInitializer (k.shift m) = (s.forInitializer k).shift m := by
  simp only [forInitializer, look_shift]
  split
  case h_3 => rfl
  all_goals exact take_shift s rfl

theorem unary_shift (s : State) (k : Pending .expression) :
    (s.shift m).unary (k.shift m) = (s.unary k).shift m := by
  simp only [unary, look_shift, next_shift]
  split
  case h_3 => rfl
  all_goals exact take_shift s rfl

/-- An identifier gets its id so much further on. -/
theorem reference_shift (s : State) (name : Token) (k : Pending .expression) :
    (s.shift m).reference (m.token name) (k.shift m) = (s.reference name k).shift m := by
  simp [reference, shift, shiftExpr, List.map_tail, Nat.add_right_comm _ m.further 1]

theorem primary_shift (s : State) (k : Pending .expression) :
    (s.shift m).primary (k.shift m) = (s.primary k).shift m := by
  simp only [primary, look_shift, next_shift]
  split
  case h_6 => exact reference_shift ..
  case h_8 => exact missing_shift ..
  all_goals exact take_shift s rfl

/-- With tokens and ids shifted, a step is the same step. -/
theorem step_shift (s : State) : (s.shift m).step = s.step.shift m := by
  have current : (s.shift m).task = s.task.shift m := rfl
  unfold step
  rw [current, rest_shift]
  cases s.task with
  | program done =>
    cases left : s.rest with
    | nil => exact goTo_shift s (by simp [List.map_reverse])
    | cons t ts => rfl
  | declarations done k =>
    cases left : s.rest with
    | nil => exact missing_shift s .blockClose k
    | cons t ts =>
      simp only [Task.shift, List.map_cons, m.kind_token]
      split
      · exact take_shift s (by simp [List.map_reverse])
      · rfl
  | methods name done k =>
    cases left : s.rest with
    | nil => exact missing_shift s .classBodyClose k
    | cons t ts =>
      simp only [Task.shift, List.map_cons, m.kind_token]
      split
      · refine take_shift s ?_
        simp [shiftStmt, shiftFunction, Stmt.mapMethods_eq, List.map_reverse]
      · rfl
  | declaration k => exact declaration_shift s k
  | statement k => exact statement_shift s k
  | forInitializer k => exact forInitializer_shift s k
  | unary k => exact unary_shift s k
  | primary k => exact primary_shift s k
  | giveExpression e k => exact giveExpression_shift s e k
  | giveStatement stmt k => exact giveStatement_shift s stmt k
  | giveFunction f k => exact giveFunction_shift s f k
  | giveBody body k => exact giveBody_shift s body k
  | fail e k => exact fail_shift s e k
  | className k | classOpen name k | callableName c k | callableOpen c name k
  | callableBody c name params k | variableName k | forOpen k | ifOpen k | whileOpen k
  | property object k => exact require_shift s _ _ k fun _ => rfl
  | parameters c name k | forTest initializer k | forStep initializer test k
  | returnValue keyword k | arguments callee k => exact branch_shift s _ (fun _ => rfl) rfl
  | parameter c name done k =>
    simp only [Task.shift, List.length_map, note_shift]
    split
    · exact require_shift (s.note .tooManyParameters) _ _ k fun _ => rfl
    · exact require_shift s _ _ k fun _ => rfl
  | parameterEnd c name done k =>
    simp only [Task.shift, look_shift]
    split
    · exact take_shift s rfl
    · exact require_shift s _ _ k fun _ => by simp [List.map_reverse]
  | variableValue name k =>
    simp only [Task.shift, look_shift]
    split
    · exact take_shift s rfl
    · exact require_shift s _ _ k fun _ => rfl
  | argument callee done k =>
    simp only [Task.shift, List.length_map, note_shift]
    split <;> rfl
  | level l k => exact goTo_shift s (operandTask_shift l (.operators l k))
  | expression k | finished done => rfl

/-! ## Shifted parses -/

@[simp] theorem ended_shift (s : State) : (s.shift m).ended = s.ended := by
  obtain ⟨task, rest, eof, n, errors⟩ := s
  cases task <;> rfl

/-- With tokens and ids shifted, a parse comes to the same end. -/
theorem run_shift (s : State) : (s.shift m).run = s.run.shift m := by
  induction s using run.induct with
  | case1 s h => rw [run, ended_shift, if_pos h, run, if_pos h]
  | case2 s h ih =>
    have rest : s.run = s.step.run := by rw [run, if_neg h]
    rw [run, ended_shift, if_neg h, step_shift, ih, rest]

theorem statements_shift (s : State) :
    (s.shift m).statements = Stmt.mapAll (· + m.further) m.token s.statements := by
  rw [Stmt.mapAll_eq]
  obtain ⟨task, rest, eof, n, errors⟩ := s
  cases task <;> rfl

/-- Where only ids are counted from elsewhere, the errors are the same. -/
theorem errors_shift_ids (s : State) (d : Nat) : (s.shift (.ids d)).errors = s.errors := by
  simp [shift, Shift.ids, StaticError.map_id]

/-- A parse of the same tokens, counted from elsewhere. -/
theorem shift_ids_program (tokens : List Token) (eof : Token) (n d : Nat) :
    shift (.ids d) ⟨.program [], tokens, eof, n, []⟩ = ⟨.program [], tokens, eof, n + d, []⟩ := by
  simp [shift, Shift.ids]

/-- A parse of tokens with an end among them starts as the parse of the others does. -/
theorem start_map (n : Nat) {tokens : List Token} (ends : ∃ t ∈ tokens, t.kind = .eof) :
    State.start (n + m.further) (tokens.map m.token) = (State.start n tokens).shift m := by
  have kinds : (fun t => (m.token t).kind == .eof) = fun t : Token => t.kind == .eof := by
    funext t
    rw [m.kind_token]
  have kinds' : (fun t => (m.token t).kind != .eof) = fun t : Token => t.kind != .eof := by
    funext t
    rw [m.kind_token]
  obtain ⟨t, mem, eof⟩ := ends
  obtain ⟨u, found⟩ : ∃ u, tokens.find? (·.kind == .eof) = some u := by
    rw [← Option.isSome_iff_exists, List.find?_isSome]
    exact ⟨t, mem, by simp [eof]⟩
  simp only [start, shift, List.find?_map, List.takeWhile_map, Function.comp_def, kinds, kinds', found]
  rfl

end State

/-- What a parse comes to, with its tokens and ids shifted. -/
def Parsed.shift (m : Shift) (p : Parsed) : Parsed where
  program := match p.program with
    | .ok statements => .ok (Stmt.mapAll (· + m.further) m.token statements)
    | .error errors => .error (errors.map (StaticError.map m.token m.line))
  nextId := p.nextId + m.further

theorem program_of_start {n n' : Nat} {tokens tokens' : List Token}
    (start : State.start n' tokens' = (State.start n tokens).shift m) :
    program n' tokens' = (program n tokens).shift m := by
  simp only [program, start, State.run_shift]
  -- from here on only the state at the end matters
  generalize (State.start n tokens).run = s
  have statements := State.statements_shift (m := m) s
  rw [statements]
  by_cases none : s.errors.isEmpty = true
  · have none' : (s.shift m).errors.isEmpty = true := by rwa [State.shift, List.isEmpty_map]
    rw [if_pos none, if_pos none']
    rfl
  · have some' : ¬(s.shift m).errors.isEmpty = true := by rwa [State.shift, List.isEmpty_map]
    rw [if_neg none, if_neg some']
    simp [Parsed.shift, State.shift, List.map_reverse]

/-- Other tokens of the same kinds parse to the same tree but for tokens and ids, or to the same errors
but for tokens. -/
theorem program_map (n : Nat) {tokens : List Token} (ends : ∃ t ∈ tokens, t.kind = .eof) :
    program (n + m.further) (tokens.map m.token) = (program n tokens).shift m :=
  program_of_start (State.start_map n ends)

/-- Counting from elsewhere, the same tokens parse to the same tree but for its ids, or to the same
errors. -/
theorem program_shift (n d : Nat) (tokens : List Token) : program (n + d) tokens =
    ⟨(program n tokens).program.map (Stmt.mapAll (· + d) id), (program n tokens).nextId + d⟩ := by
  have start : State.start (n + d) tokens = (State.start n tokens).shift (.ids d) :=
    (State.shift_ids_program ..).symm
  have parsed := program_of_start start
  rw [parsed, Parsed.shift]
  cases (program n tokens).program with
  | ok statements => rfl
  | error errors => simp [Shift.ids, StaticError.map_id, Except.map]

end

end Parse

end Lox
