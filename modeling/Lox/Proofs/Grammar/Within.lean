/-
A parse at a place in a list of declarations. Where the parse fits, it takes the step that it takes
alone (`step_within`): it looks at the next token only, and what it hands over is the same.

A program fits behind another one, up to the end of both. A clause fits everywhere: a list of tokens
with a semicolon at its end, and without another, without braces and without a `for`. There a skip
stops behind the semicolon at the latest, and what waits below a clause stays as it is, since no
clause opens a list of its own (`Inside.step`). So a clause is parsed in a list of declarations to the
statements and the errors that it is parsed to alone (`exists_leads_within`).
-/
import Lox.Proofs.Grammar.Steps

namespace Lox.Parse

/-! ## Clauses -/

/-- The token neither ends a clause nor breaks it. -/
structure Plain (t : Token) : Prop where
  semicolon : t.kind ≠ .semicolon
  leftBrace : t.kind ≠ .leftBrace
  rightBrace : t.kind ≠ .rightBrace
  loop : t.kind ≠ .for
  eof : t.kind ≠ .eof

instance (t : Token) : Decidable (Plain t) :=
  decidable_of_iff (t.kind ≠ .semicolon ∧ t.kind ≠ .leftBrace ∧ t.kind ≠ .rightBrace ∧
      t.kind ≠ .for ∧ t.kind ≠ .eof)
    ⟨fun ⟨semicolon, leftBrace, rightBrace, loop, eof⟩ =>
        ⟨semicolon, leftBrace, rightBrace, loop, eof⟩,
      fun plain => ⟨plain.semicolon, plain.leftBrace, plain.rightBrace, plain.loop, plain.eof⟩⟩

/-- The rest of a clause: plain tokens and a semicolon. -/
inductive Clause : List Token → Prop
  | semicolon {t : Token} : t.kind = .semicolon → Clause [t]
  | cons {t : Token} {ts : List Token} : Plain t → Clause ts → Clause (t :: ts)

namespace Clause

variable {t : Token} {ts : List Token}

theorem of_plain (plain : ∀ u ∈ ts, Plain u) (ht : t.kind = .semicolon) : Clause (ts ++ [t]) := by
  induction ts with
  | nil => exact .semicolon ht
  | cons u ts ih =>
    obtain ⟨first, rest⟩ := List.forall_mem_cons.1 plain
    exact .cons first (ih rest)

theorem ne_nil (h : Clause ts) : ts ≠ [] := by
  cases h <;> nofun

theorem head_ne (h : Clause (t :: ts)) :
    t.kind ≠ .leftBrace ∧ t.kind ≠ .rightBrace ∧ t.kind ≠ .for := by
  cases h with
  | semicolon h =>
    rw [h]
    exact ⟨nofun, nofun, nofun⟩
  | cons plain => exact ⟨plain.leftBrace, plain.rightBrace, plain.loop⟩

/-- Behind a token other than the semicolon the clause goes on. -/
theorem tail (h : Clause (t :: ts)) (ht : t.kind ≠ .semicolon) : Clause ts := by
  cases h with
  | semicolon h => exact absurd h ht
  | cons _ rest => exact rest

/-- Behind the semicolon there is nothing. -/
theorem tail_eq_nil (h : Clause (t :: ts)) (ht : t.kind = .semicolon) : ts = [] := by
  cases h with
  | semicolon => rfl
  | cons plain => exact absurd ht plain.semicolon

/-- A skip that starts in a clause stops behind its semicolon at the latest. -/
theorem skipAfter_append (h : Clause (t :: ts)) (tail : List Token) :
    skipAfter t (ts ++ tail) = skipAfter t ts ++ tail := by
  induction ts generalizing t with
  | nil =>
    have ht : t.kind = .semicolon := by
      cases h with
      | semicolon h => exact h
      | cons _ rest => cases rest
    cases tail with
    | nil => rfl
    | cons u tail => simp [skipAfter, ht]
  | cons u ts ih =>
    have rest : Clause (u :: ts) := h.tail fun ht => by cases h.tail_eq_nil ht
    rw [List.cons_append, skipAfter, skipAfter]
    split
    · rfl
    · exact ih rest

/-- Where a skip stops in a clause, the clause goes on, if it is not at its end. -/
theorem of_skipAfter (h : Clause (t :: ts)) : skipAfter t ts = [] ∨ Clause (skipAfter t ts) := by
  induction ts generalizing t with
  | nil => exact .inl rfl
  | cons u ts ih =>
    have rest : Clause (u :: ts) := h.tail fun ht => by cases h.tail_eq_nil ht
    rw [skipAfter]
    split
    · exact .inr rest
    · exact ih rest

end Clause

/-! ## Places -/

/-- A place in a list of declarations: between two braces, if anything waits for what stands there, or
in the program; with the declarations before it, newest first, the tokens and the end of the source
behind it, and the errors noted before it. -/
structure Place where
  outer : Option (Pending .body)
  before : List Stmt
  tail : List Token
  eof : Token
  errors : List StaticError

namespace Place

variable (w : Place)

/-- What waits for a declaration at the place, behind others. -/
def pending (done : List Stmt) : Pending .statement :=
  match w.outer with
  | none => .program (done ++ w.before)
  | some k => .declarations (done ++ w.before) k

/-- The list goes on, behind other declarations at the place. -/
def task (done : List Stmt) : Task :=
  match w.outer with
  | none => .program (done ++ w.before)
  | some k => .declarations (done ++ w.before) k

end Place

section

variable (w : Place)

/-- What waits, with the place instead of the program at the end. -/
@[simp] def Pending.within : {p : Part} → Pending p → Pending p
  | _, .assignment k => .assignment k.within
  | _, .assigned target equals k => .assigned target equals k.within
  | _, .operators l k => .operators l k.within
  | _, .rightOperand l left op k => .rightOperand l left op k.within
  | _, .operand op k => .operand op k.within
  | _, .trailers k => .trailers k.within
  | _, .argument callee done k => .argument callee done k.within
  | _, .group k => .group k.within
  | _, .initializer name k => .initializer name k.within
  | _, .ifTest k => .ifTest k.within
  | _, .whileTest k => .whileTest k.within
  | _, .printed k => .printed k.within
  | _, .returned keyword k => .returned keyword k.within
  | _, .expressionStatement k => .expressionStatement k.within
  | _, .forTest before k => .forTest before k.within
  | _, .forStep before test k => .forStep before test k.within
  | _, .program done => w.pending done
  | _, .declarations done k => .declarations done k.within
  | _, .thenBranch condition k => .thenBranch condition k.within
  | _, .elseBranch condition other k => .elseBranch condition other k.within
  | _, .whileBody condition k => .whileBody condition k.within
  | _, .forInitializer k => .forInitializer k.within
  | _, .forBody before test step k => .forBody before test step k.within
  | _, .block k => .block k.within
  | _, .functionBody name params k => .functionBody name params k.within
  | _, .declared k => .declared k.within
  | _, .method name done k => .method name done k.within

/-- The task, at the place instead of in the program. -/
@[simp] def Task.within : Task → Task
  | program done => w.task done
  | declarations done k => declarations done (k.within w)
  | declaration k => declaration (k.within w)
  | className k => className (k.within w)
  | classOpen name k => classOpen name (k.within w)
  | methods name done k => methods name done (k.within w)
  | callableName c k => callableName c (k.within w)
  | callableOpen c name k => callableOpen c name (k.within w)
  | parameters c name k => parameters c name (k.within w)
  | parameter c name done k => parameter c name done (k.within w)
  | parameterEnd c name done k => parameterEnd c name done (k.within w)
  | callableBody c name params k => callableBody c name params (k.within w)
  | variableName k => variableName (k.within w)
  | variableValue name k => variableValue name (k.within w)
  | statement k => statement (k.within w)
  | forOpen k => forOpen (k.within w)
  | forInitializer k => forInitializer (k.within w)
  | forTest before k => forTest before (k.within w)
  | forStep before test k => forStep before test (k.within w)
  | ifOpen k => ifOpen (k.within w)
  | whileOpen k => whileOpen (k.within w)
  | returnValue keyword k => returnValue keyword (k.within w)
  | expression k => expression (k.within w)
  | level l k => level l (k.within w)
  | unary k => unary (k.within w)
  | primary k => primary (k.within w)
  | arguments callee k => arguments callee (k.within w)
  | argument callee done k => argument callee done (k.within w)
  | property object k => property object (k.within w)
  | giveExpression e k => giveExpression e (k.within w)
  | giveStatement s k => giveStatement s (k.within w)
  | giveFunction f k => giveFunction f (k.within w)
  | giveBody body k => giveBody body (k.within w)
  | fail e k => fail e (k.within w)
  | finished done => finished done

/-- The parse at the place. -/
def State.within (s : State) : State :=
  ⟨s.task.within w, s.rest ++ w.tail, w.eof, s.nextId, s.errors ++ w.errors⟩

end

/-- At the place the parse comes to the same token: one of its own, or the same end of the source. -/
inductive Place.Sees : Place → State → Prop
  | token (w : Place) {task : Task} {t : Token} {ts : List Token} {eof : Token} {n : Nat}
    {errors : List StaticError} : Sees w ⟨task, t :: ts, eof, n, errors⟩
  | ending {outer : Option (Pending .body)} {before : List Stmt} {task : Task} {eof : Token}
    {n : Nat} {errors errors' : List StaticError} :
    Sees ⟨outer, before, [], eof, errors'⟩ ⟨task, [], eof, n, errors⟩

/-! ## Steps at a place -/

namespace State

theorem sees_of_ne_nil {s : State} (w : Place) (more : s.rest ≠ []) : w.Sees s := by
  obtain ⟨current, rest, eof, n, errors⟩ := s
  cases rest with
  | nil => exact absurd rfl more
  | cons t ts => exact .token w

theorem exists_cons {s : State} (more : s.rest ≠ []) : ∃ current t ts eof n errors,
    s = ⟨current, t :: ts, eof, n, errors⟩ := by
  obtain ⟨current, rest, eof, n, errors⟩ := s
  obtain ⟨t, ts, rfl⟩ : ∃ t ts, rest = t :: ts := List.exists_cons_of_ne_nil more
  exact ⟨current, t, ts, eof, n, errors, rfl⟩

section

variable {w : Place} {s : State} (sees : w.Sees s)

include sees

theorem require_within (kind : Kind) (what : Expected) {p : Part} (k : Pending p)
    {task task' : Token → Task} (h : ∀ t, task' t = (task t).within w) :
    (s.within w).require kind what (k.within w) task' = (s.require kind what k task).within w := by
  cases sees with
  | token =>
    simp only [require, within, List.cons_append]
    split
    · rw [h]
      rfl
    · rfl
  | ending => rfl

theorem branch_within (kind : Kind) {taken taken' : Token → Task} {left left' : Task}
    (h : ∀ t, taken' t = (taken t).within w) (h' : left' = left.within w) :
    (s.within w).branch kind taken' left' = (s.branch kind taken left).within w := by
  subst h'
  cases sees with
  | token =>
    simp only [branch, within, List.cons_append]
    split
    · rw [h]
      rfl
    · rfl
  | ending => rfl

theorem look_within : (s.within w).look = s.look := by
  cases sees <;> rfl

theorem next_within : (s.within w).next = s.next := by
  cases sees <;> rfl

theorem take_within {task task' : Task} (h : task' = task.within w) :
    (s.within w).take task' = (s.take task).within w := by
  subst h
  cases sees <;> rfl

theorem note_within (fault : SyntaxFault) :
    (s.within w).note fault = (s.note fault).within w := by
  cases sees <;> rfl

theorem missing_within (what : Expected) {p : Part} (k : Pending p) :
    (s.within w).missing what (k.within w) = (s.missing what k).within w := by
  rw [missing, next_within sees]
  rfl

theorem giveExpression_within (e : Expr) (k : Pending .expression) :
    (s.within w).giveExpression e (k.within w) = (s.giveExpression e k).within w := by
  cases k with
  | assignment k => exact branch_within sees .equal (fun _ => rfl) rfl
  | assigned target equals k => cases target <;> rfl
  | operators l k =>
    simp only [Pending.within, giveExpression, look_within sees, next_within sees]
    split
    · exact take_within sees (by cases l <;> rfl)
    · rfl
  | rightOperand l left op k | operand op k => rfl
  | trailers k =>
    simp only [Pending.within, giveExpression, trailers, look_within sees]
    split
    · exact take_within sees rfl
    · exact take_within sees rfl
    · rfl
  | argument callee done k =>
    simp only [Pending.within, giveExpression, look_within sees]
    split
    · exact take_within sees rfl
    · exact require_within sees _ _ k fun _ => rfl
  | group k | initializer name k | ifTest k | whileTest k | printed k | returned keyword k
  | expressionStatement k | forTest initializer k | forStep initializer test k =>
    exact require_within sees _ _ k fun _ => rfl

theorem declaration_within (k : Pending .statement) :
    (s.within w).declaration (k.within w) = (s.declaration k).within w := by
  simp only [declaration, look_within sees]
  split
  case h_4 => rfl
  all_goals exact take_within sees rfl

theorem statement_within (k : Pending .statement) :
    (s.within w).statement (k.within w) = (s.statement k).within w := by
  simp only [statement, look_within sees, next_within sees]
  split
  case h_7 => rfl
  all_goals exact take_within sees rfl

theorem forInitializer_within (k : Pending .statement) :
    (s.within w).forInitializer (k.within w) = (s.forInitializer k).within w := by
  simp only [forInitializer, look_within sees]
  split
  case h_3 => rfl
  all_goals exact take_within sees rfl

theorem unary_within (k : Pending .expression) :
    (s.within w).unary (k.within w) = (s.unary k).within w := by
  simp only [unary, look_within sees, next_within sees]
  split
  case h_3 => rfl
  all_goals exact take_within sees rfl

theorem reference_within (name : Token) (k : Pending .expression) :
    (s.within w).reference name (k.within w) = (s.reference name k).within w := by
  cases sees <;> rfl

theorem primary_within (k : Pending .expression) :
    (s.within w).primary (k.within w) = (s.primary k).within w := by
  simp only [primary, look_within sees, next_within sees]
  split
  case h_6 => exact reference_within sees ..
  case h_8 => exact missing_within sees ..
  all_goals exact take_within sees rfl

omit sees

/-- A declaration that is given up at a place in a list is given up there, and as much is skipped. -/
theorem fail_within (skips : synchronize (s.rest ++ w.tail) = synchronize s.rest ++ w.tail)
    (e : StaticError) {p : Part} (k : Pending p) :
    (s.within w).fail e (k.within w) = (s.fail e k).within w := by
  obtain ⟨current, rest, eof, n, errors⟩ := s
  have skipped : synchronize (rest ++ w.tail) = synchronize rest ++ w.tail := skips
  cases k with
  | program done =>
    simp only [Pending.within, Place.pending, fail, within, Task.within, Place.task]
    cases w.outer <;> simp only [skipped, List.cons_append]
  | declarations done k =>
    simp only [Pending.within, fail, within, Task.within, skipped, List.cons_append]
  | _ => rfl

/-- What a statement is handed to, when more of its clause is left or nothing of it. -/
theorem giveStatement_within (next : s.rest = [] → firstKind w.tail ≠ .else) (stmt : Stmt)
    (k : Pending .statement) :
    (s.within w).giveStatement stmt (k.within w) = (s.giveStatement stmt k).within w := by
  cases k with
  | program done =>
    simp only [Pending.within, Place.pending, giveStatement, within, goTo, Task.within, Place.task]
    cases w.outer <;> rfl
  | thenBranch condition k =>
    by_cases more : s.rest = []
    · obtain ⟨current, rest, eof, n, errors⟩ := s
      obtain rfl : rest = [] := more
      exact branch_left (next rfl)
    · simp only [Pending.within, giveStatement]
      exact branch_within (sees_of_ne_nil w more) .else (fun _ => rfl) rfl
  | _ => rfl

end

end State

/-- At the place the parse sees the same token and skips as much. -/
structure Place.Fits (w : Place) (s : State) : Prop where
  sees : w.Sees s
  skips : synchronize (s.rest ++ w.tail) = synchronize s.rest ++ w.tail
  next : s.rest = [] → firstKind w.tail ≠ .else

theorem Clause.fits {s : State} (w : Place) (h : Clause s.rest) : w.Fits s := by
  obtain ⟨current, rest, eof, n, errors⟩ := s
  cases rest with
  | nil => exact absurd rfl h.ne_nil
  | cons t ts =>
    constructor
    · exact .token w
    · exact h.skipAfter_append w.tail
    · intro none
      cases none

/-- In front of nothing everything fits. -/
theorem Place.fits {w : Place} {s : State} (tail : w.tail = []) (eof : w.eof = s.eof) : w.Fits s := by
  obtain ⟨outer, before, _, _, errors'⟩ := w
  obtain ⟨current, rest, eof, n, errors⟩ := s
  subst tail eof
  constructor
  · cases rest with
    | nil => exact .ending
    | cons t ts => exact .token _
  · simp
  · intro _ other
    cases other

namespace State

/-- Where a parse fits, it takes the step that it takes alone; but between braces its list of
declarations ends otherwise. -/
theorem step_within {w : Place} {s : State} (fits : w.Fits s)
    (list : ∀ done, s.task = .program done →
      s.rest ≠ [] ∧ (firstKind s.rest = .rightBrace → w.outer = none)) :
    (s.within w).step = s.step.within w := by
  have sees := fits.sees
  have current : (s.within w).task = s.task.within w := rfl
  unfold step
  rw [current]
  cases task : s.task with
  | program done =>
    obtain ⟨more, braces⟩ := list done task
    cases sees with
    | ending => exact absurd rfl more
    | @token _ _ t ts eof n errors =>
      simp only [Task.within, Place.task]
      cases hw : w.outer with
      | none => simp only [within, goTo, List.cons_append, Task.within, Pending.within,
          Place.pending, hw]
      | some k =>
        have other : t.kind ≠ .rightBrace := by
          intro brace
          have none := braces brace
          rw [hw] at none
          cases none
        simp only [within, goTo, List.cons_append, Task.within, Pending.within,
          Place.pending, hw, if_neg other]
  | declarations done k | methods name done k =>
    cases sees with
    | ending => rfl
    | token =>
      simp only [Task.within, within, List.cons_append]
      split <;> rfl
  | declaration k => exact declaration_within sees k
  | statement k => exact statement_within sees k
  | forInitializer k => exact forInitializer_within sees k
  | unary k => exact unary_within sees k
  | primary k => exact primary_within sees k
  | giveExpression e k => exact giveExpression_within sees e k
  | giveStatement stmt k => exact giveStatement_within fits.next stmt k
  | giveFunction f k => cases k <;> rfl
  | giveBody body k => cases k <;> rfl
  | fail e k => exact fail_within fits.skips e k
  | className k | classOpen name k | callableName c k | callableOpen c name k
  | callableBody c name params k | variableName k | forOpen k | ifOpen k | whileOpen k
  | property object k => exact require_within sees _ _ k fun _ => rfl
  | parameters c name k | forTest initializer k | forStep initializer test k
  | returnValue keyword k | arguments callee k => exact branch_within sees _ (fun _ => rfl) rfl
  | parameter c name done k =>
    simp only [Task.within]
    split
    · rw [note_within sees]
      have noted : w.Sees (s.note .tooManyParameters) := by cases sees <;> constructor
      exact require_within noted _ _ k fun _ => rfl
    · exact require_within sees _ _ k fun _ => rfl
  | parameterEnd c name done k =>
    simp only [Task.within, look_within sees]
    split
    · exact take_within sees rfl
    · exact require_within sees _ _ k fun _ => rfl
  | variableValue name k =>
    simp only [Task.within, look_within sees]
    split
    · exact take_within sees rfl
    · exact require_within sees _ _ k fun _ => rfl
  | argument callee done k =>
    simp only [Task.within]
    split
    · rw [note_within sees]
      rfl
    · rfl
  | level l k => cases l <;> rfl
  | expression k | finished done => rfl

end State

/-! ## Inside of a clause -/

/-- Nothing waits for what stands between braces or in the head of a `for`. -/
def Pending.Flat : {p : Part} → Pending p → Prop
  | _, .program _ => True
  | _, .declarations _ _ | _, .forTest _ _ | _, .forStep _ _ _ | _, .forInitializer _
  | _, .forBody _ _ _ _ | _, .block _ | _, .functionBody _ _ _ | _, .method _ _ _ => False
  | _, .assignment k | _, .assigned _ _ k | _, .operators _ k | _, .rightOperand _ _ _ k
  | _, .operand _ k | _, .trailers k | _, .argument _ _ k | _, .group k => k.Flat
  | _, .initializer _ k | _, .ifTest k | _, .whileTest k | _, .printed k | _, .returned _ k
  | _, .expressionStatement k | _, .thenBranch _ k | _, .elseBranch _ _ k | _, .whileBody _ k
  | _, .declared k => k.Flat

/-- The task is one that a clause can come to before its semicolon. -/
def Task.Flat : Task → Prop
  | .program _ => True
  | .declarations _ _ | .methods _ _ _ | .forOpen _ | .forInitializer _ | .forTest _ _
  | .forStep _ _ _ | .giveStatement _ _ | .giveFunction _ _ | .giveBody _ _ | .finished _ => False
  | .declaration k | .className k | .classOpen _ k | .variableName k | .variableValue _ k
  | .statement k | .ifOpen k | .whileOpen k | .returnValue _ k => k.Flat
  | .callableName _ k | .callableOpen _ _ k | .parameters _ _ k | .parameter _ _ _ k
  | .parameterEnd _ _ _ k | .callableBody _ _ _ k => k.Flat
  | .expression k | .level _ k | .unary k | .primary k | .arguments _ k | .argument _ _ k
  | .property _ k | .giveExpression _ k => k.Flat
  | .fail _ k => k.Flat

namespace State

/-- The parse is inside of a clause, or behind it and about to hand over its statement. -/
inductive Inside (s : State) : Prop
  | before (rest : Clause s.rest) (flat : s.task.Flat)
  | behind {stmt : Stmt} {k : Pending .statement} (rest : s.rest = [])
    (task : s.task = .giveStatement stmt k) (flat : k.Flat)
  | done {done : List Stmt} (rest : s.rest = []) (task : s.task = .program done)

section

variable {s : State} (h : Clause s.rest)

include h

theorem inside_goTo {task : Task} (flat : task.Flat) : (s.goTo task).Inside := .before h flat

/-- A token other than the semicolon is taken. -/
theorem inside_take {task : Task} (other : s.look ≠ .semicolon) (flat : task.Flat) :
    (s.take task).Inside := by
  obtain ⟨current, t, ts, eof, n, errors, rfl⟩ := exists_cons h.ne_nil
  exact .before (h.tail other) flat

theorem inside_missing (what : Expected) {p : Part} {k : Pending p} (flat : k.Flat) :
    (s.missing what k).Inside := .before h flat

theorem inside_require {kind : Kind} (other : kind ≠ .semicolon) (what : Expected) {p : Part}
    {k : Pending p} (waits : k.Flat) {task : Token → Task} (flat : ∀ t, (task t).Flat) :
    (s.require kind what k task).Inside := by
  obtain ⟨current, t, ts, eof, n, errors, rfl⟩ := exists_cons h.ne_nil
  simp only [require]
  split
  · rename_i same
    exact .before (h.tail (same ▸ other)) (flat t)
  · exact .before h waits

/-- No brace is opened in a clause. -/
theorem inside_require_leftBrace (what : Expected) {p : Part} {k : Pending p} (waits : k.Flat)
    (task : Token → Task) : (s.require .leftBrace what k task).Inside := by
  obtain ⟨current, t, ts, eof, n, errors, rfl⟩ := exists_cons h.ne_nil
  simp only [require, if_neg h.head_ne.1]
  exact .before h waits

/-- The semicolon ends the clause. -/
theorem inside_require_semicolon (what : Expected) {p : Part} {k : Pending p} (waits : k.Flat)
    {stmt : Token → Stmt} {k' : Pending .statement} (flat : k'.Flat) :
    (s.require .semicolon what k fun t => .giveStatement (stmt t) k').Inside := by
  obtain ⟨current, t, ts, eof, n, errors, rfl⟩ := exists_cons h.ne_nil
  simp only [require]
  split
  · rename_i same
    exact .behind (h.tail_eq_nil same) rfl flat
  · exact .before h waits

theorem inside_branch {kind : Kind} (other : kind ≠ .semicolon) {taken : Token → Task} {left : Task}
    (flat : ∀ t, (taken t).Flat) (flat' : left.Flat) : (s.branch kind taken left).Inside := by
  obtain ⟨current, t, ts, eof, n, errors, rfl⟩ := exists_cons h.ne_nil
  simp only [branch]
  split
  · rename_i same
    exact .before (h.tail (same ▸ other)) (flat t)
  · exact .before h flat'

theorem inside_branch_semicolon {stmt : Token → Stmt} {k : Pending .statement} (flat : k.Flat)
    {left : Task} (flat' : left.Flat) :
    (s.branch .semicolon (fun t => .giveStatement (stmt t) k) left).Inside := by
  obtain ⟨current, t, ts, eof, n, errors, rfl⟩ := exists_cons h.ne_nil
  simp only [branch]
  split
  · rename_i same
    exact .behind (h.tail_eq_nil same) rfl flat
  · exact .before h flat'

theorem look_ne : s.look ≠ .leftBrace ∧ s.look ≠ .for := by
  obtain ⟨current, t, ts, eof, n, errors, rfl⟩ := exists_cons h.ne_nil
  exact ⟨h.head_ne.1, h.head_ne.2.2⟩

theorem inside_declaration {k : Pending .statement} (flat : k.Flat) : (s.declaration k).Inside := by
  unfold declaration
  split
  · exact inside_take h (by simp [*]) flat
  · exact inside_take h (by simp [*]) flat
  · exact inside_take h (by simp [*]) flat
  · exact inside_goTo h flat

theorem inside_statement {k : Pending .statement} (flat : k.Flat) : (s.statement k).Inside := by
  unfold statement
  split
  · exact absurd ‹s.look = _› (look_ne h).2
  · exact inside_take h (by simp [*]) flat
  · exact inside_take h (by simp [*]) flat
  · exact inside_take h (by simp [*]) flat
  · exact inside_take h (by simp [*]) flat
  · exact absurd ‹s.look = _› (look_ne h).1
  · exact inside_goTo h flat

theorem inside_unary {k : Pending .expression} (flat : k.Flat) : (s.unary k).Inside := by
  unfold unary
  split
  · exact inside_take h (by simp [*]) flat
  · exact inside_take h (by simp [*]) flat
  · exact inside_goTo h flat

theorem inside_reference (other : s.look ≠ .semicolon) (name : Token) {k : Pending .expression}
    (flat : k.Flat) : (s.reference name k).Inside := by
  obtain ⟨current, t, ts, eof, n, errors, rfl⟩ := exists_cons h.ne_nil
  exact .before (h.tail other) flat

theorem inside_primary {k : Pending .expression} (flat : k.Flat) : (s.primary k).Inside := by
  unfold primary
  split
  case h_6 => exact inside_reference h (by simp [*]) _ flat
  case h_8 => exact inside_missing h _ flat
  all_goals exact inside_take h (by simp [*]) flat

theorem inside_giveExpression (e : Expr) {k : Pending .expression} (flat : k.Flat) :
    (s.giveExpression e k).Inside := by
  cases k with
  | assignment k =>
    have flat : k.Flat := flat
    exact inside_branch h (by decide) (fun _ => flat) flat
  | assigned target equals k => cases target <;> exact .before h flat
  | operators l k =>
    simp only [giveExpression]
    split
    · rename_i admitted
      refine inside_take h (fun same => ?_) (by cases l <;> exact flat)
      rw [same] at admitted
      cases l <;> cases admitted
    · exact inside_goTo h flat
  | rightOperand l left op k | operand op k => exact inside_goTo h flat
  | trailers k =>
    simp only [giveExpression, trailers]
    split
    · exact inside_take h (by simp [*]) flat
    · exact inside_take h (by simp [*]) flat
    · exact inside_goTo h flat
  | argument callee done k =>
    have flat : k.Flat := flat
    simp only [giveExpression]
    split
    · exact inside_take h (by simp [*]) flat
    · exact inside_require h (by decide) _ flat fun _ => flat
  | group k | ifTest k | whileTest k =>
    have flat : k.Flat := flat
    exact inside_require h (by decide) _ flat fun _ => flat
  | initializer name k | printed k | returned keyword k | expressionStatement k =>
    have flat : k.Flat := flat
    exact inside_require_semicolon h _ flat flat
  | forTest initializer k | forStep initializer test k => exact flat.elim

/-- A declaration that is given up is left behind a part of the clause, or behind all of it. -/
theorem inside_fail (e : StaticError) {p : Part} {k : Pending p} (flat : k.Flat) :
    (s.fail e k).Inside := by
  obtain ⟨current, rest, eof, n, errors⟩ := s
  cases k with
  | program done =>
    cases rest with
    | nil => exact absurd rfl h.ne_nil
    | cons t ts =>
      rcases h.of_skipAfter with none | more
      · exact .done none rfl
      · exact .before more trivial
  | declarations | forTest | forStep | forInitializer | forBody | block | functionBody | method =>
    exact flat.elim
  | _ => exact .before h flat

/-- A step inside of a clause does not leave it, except behind its semicolon. -/
theorem inside_step (flat : s.task.Flat) : s.step.Inside := by
  unfold step
  generalize s.task = task at flat ⊢
  cases task with
  | program done =>
    obtain ⟨current, t, ts, eof, n, errors, rfl⟩ := exists_cons h.ne_nil
    exact .before h trivial
  | declaration k => exact inside_declaration h flat
  | className k | callableName c k | callableOpen c name k | variableName k | ifOpen k
  | whileOpen k | property object k => exact inside_require h (by decide) _ flat fun _ => flat
  | classOpen name k | callableBody c name params k => exact inside_require_leftBrace h _ flat _
  | parameters c name k => exact inside_branch h (by decide) (fun _ => flat) flat
  | parameter c name done k =>
    dsimp only
    split
    · have noted : Clause (s.note .tooManyParameters).rest := h
      exact inside_require noted (by decide) _ flat fun _ => flat
    · exact inside_require h (by decide) _ flat fun _ => flat
  | parameterEnd c name done k =>
    dsimp only
    split
    · exact inside_take h (by simp [*]) flat
    · exact inside_require h (by decide) _ flat fun _ => flat
  | variableValue name k =>
    dsimp only
    split
    · exact inside_take h (by simp [*]) flat
    · exact inside_require_semicolon h _ flat flat
  | statement k => exact inside_statement h flat
  | returnValue keyword k => exact inside_branch_semicolon h flat flat
  | unary k => exact inside_unary h flat
  | primary k => exact inside_primary h flat
  | giveExpression e k => exact inside_giveExpression h e flat
  | fail e k => exact inside_fail h e flat
  | arguments callee k => exact inside_branch h (by decide) (fun _ => flat) flat
  | argument callee done k =>
    dsimp only
    split
    · exact .before h flat
    · exact inside_goTo h flat
  | level l k => exact inside_goTo h (by cases l <;> exact flat)
  | expression k => exact inside_goTo h flat
  | declarations | methods | forOpen | forInitializer | forTest | forStep | giveStatement
  | giveFunction | giveBody | finished => exact flat.elim

omit h

/-- Behind the semicolon only statements are put together. -/
theorem inside_giveStatement (rest : s.rest = []) (stmt : Stmt) {k : Pending .statement}
    (flat : k.Flat) : (s.giveStatement stmt k).Inside := by
  obtain ⟨current, ts, eof, n, errors⟩ := s
  obtain rfl : ts = [] := rest
  cases k with
  | program done => exact .done rfl rfl
  | thenBranch | elseBranch | whileBody => exact .behind rfl rfl flat
  | declarations | forInitializer | forBody => exact flat.elim

end

/-- A parse that is inside of a clause stays so, until the clause is behind it and it goes on with the
program. -/
theorem Inside.step {s : State} (h : s.Inside) :
    s.step.Inside ∨ s.rest = [] ∧ ∃ done, s.task = .program done := by
  cases h with
  | before rest flat => exact .inl (inside_step rest flat)
  | behind rest task flat =>
    rw [State.step, task]
    exact .inl (inside_giveStatement rest _ flat)
  | done rest task => exact .inr ⟨rest, _, task⟩

/-- At the place the parse takes the same step, inside of the clause and behind it. -/
theorem Inside.step_within {w : Place} (next : firstKind w.tail ≠ .else) {s : State} (h : s.Inside)
    (more : s.rest = [] → ∀ done, s.task ≠ .program done) : (s.within w).step = s.step.within w := by
  cases h with
  | before rest flat =>
    refine State.step_within (rest.fits w) fun done _ => ⟨rest.ne_nil, fun brace => ?_⟩
    obtain ⟨current, t, ts, eof, n, errors, rfl⟩ := exists_cons rest.ne_nil
    exact absurd brace rest.head_ne.2.1
  | @behind stmt k rest task flat =>
    have current : (s.within w).task = .giveStatement stmt (k.within w) := by
      rw [within, task]
      rfl
    rw [State.step, current, State.step, task]
    exact giveStatement_within (fun _ => next) stmt k
  | done rest task => exact absurd task (more rest _)

theorem Inside.not_ended {s : State} (h : s.Inside) : ¬s.ended = true := by
  obtain ⟨task, rest, eof, n, errors⟩ := s
  cases h with
  | before _ flat =>
    cases task with
    | finished => exact flat.elim
    | _ => nofun
  | behind _ task | done _ task =>
    obtain rfl := task
    nofun

/-- A clause is parsed at the place to what it is parsed to alone: in both ways the parse comes behind
it, with the same statements, ids and errors. -/
theorem exists_leads_within {w : Place} (next : firstKind w.tail ≠ .else) {s : State}
    (h : s.Inside) : ∃ done eof n errors,
      Leads s ⟨.program done, [], eof, n, errors⟩ ∧
      Leads (s.within w) ⟨w.task done, w.tail, w.eof, n, errors ++ w.errors⟩ := by
  induction s using run.induct with
  | case1 s ended => exact absurd ended h.not_ended
  | case2 s _ ih =>
    by_cases behind : s.rest = [] ∧ ∃ done, s.task = .program done
    · obtain ⟨rest, done, task⟩ := behind
      obtain ⟨current, ts, eof, n, errors⟩ := s
      obtain rfl : ts = [] := rest
      obtain rfl : current = _ := task
      exact ⟨done, eof, n, errors, .refl _, .refl _⟩
    · obtain ⟨done, eof, n, errors, alone, there⟩ := ih (h.step.resolve_right behind)
      have same := h.step_within next fun rest done task => behind ⟨rest, done, task⟩
      exact ⟨done, eof, n, errors, .step alone, .next same there⟩

end State

end Lox.Parse
