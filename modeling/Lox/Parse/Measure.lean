/-
Every parse ends: a step takes a token or lowers the weight of what is still to be done, so it
lowers `State.measure`.
-/
import Lox.Parse.Step

namespace Lox.Parse

/-- The weight of what waits: the steps that are left when the part it waits for is there and no
token is taken. -/
@[simp] def Pending.weight : {p : Part} → Pending p → Nat
  | _, .assignment k => k.weight + 1
  | _, .assigned _ _ k => k.weight + 1
  | _, .operators _ k => k.weight + 1
  | _, .rightOperand _ _ _ k => k.weight + 2
  | _, .operand _ k => k.weight + 1
  | _, .trailers k => k.weight + 1
  | _, .argument _ _ k => k.weight + 1
  | _, .group k => k.weight + 1
  | _, .initializer _ k => k.weight + 1
  | _, .ifTest k => k.weight + 1
  | _, .whileTest k => k.weight + 1
  | _, .printed k => k.weight + 1
  | _, .returned _ k => k.weight + 1
  | _, .expressionStatement k => k.weight + 1
  | _, .forTest _ k => k.weight + 1
  | _, .forStep _ _ k => k.weight + 1
  | _, .program _ => 2
  | _, .declarations _ k => k.weight + 2
  | _, .thenBranch _ k => k.weight + 1
  | _, .elseBranch _ _ k => k.weight + 1
  | _, .whileBody _ k => k.weight + 1
  | _, .forInitializer k => k.weight + 1
  | _, .forBody _ _ _ k => k.weight + 1
  | _, .block k => k.weight + 1
  | _, .functionBody _ _ k => k.weight + 1
  | _, .declared k => k.weight + 1
  | _, .method _ _ k => k.weight + 1

/-- The steps a level needs at most before it takes a token. -/
@[simp] def Level.weight : Level → Nat
  | .or => 15
  | .and => 13
  | .equality => 11
  | .comparison => 9
  | .term => 7
  | .factor => 5

/-- The steps a list of declarations needs at most before it takes a token; `ended` says that no
token is left. -/
@[simp] def loopWeight : Bool → Nat
  | true => 1
  | false => 24

/-- The steps a task needs at most before it takes a token or hands over a part; `ended` says that
no token is left. -/
@[simp] def Task.weight (ended : Bool) : Task → Nat
  | .program _ => loopWeight ended
  | .declarations _ k => k.weight + loopWeight ended
  | .declaration k => k.weight + 21
  | .className k => k.weight + 1
  | .classOpen _ k => k.weight + 1
  | .methods _ _ k => k.weight + 4
  | .callableName _ k => k.weight + 1
  | .callableOpen _ _ k => k.weight + 1
  | .parameters _ _ k => k.weight + 2
  | .parameter _ _ _ k => k.weight + 1
  | .parameterEnd _ _ _ k => k.weight + 1
  | .callableBody _ _ _ k => k.weight + 1
  | .variableName k => k.weight + 1
  | .variableValue _ k => k.weight + 1
  | .statement k => k.weight + 20
  | .forOpen k => k.weight + 1
  | .forInitializer k => k.weight + 21
  | .forTest _ k => k.weight + 20
  | .forStep _ _ k => k.weight + 20
  | .ifOpen k => k.weight + 1
  | .whileOpen k => k.weight + 1
  | .returnValue _ k => k.weight + 20
  | .expression k => k.weight + 18
  | .level l k => k.weight + l.weight
  | .unary k => k.weight + 3
  | .primary k => k.weight + 1
  | .arguments _ k => k.weight + 21
  | .argument _ _ k => k.weight + 20
  | .property _ k => k.weight + 1
  | .giveExpression _ k => k.weight
  | .giveStatement _ k => k.weight + 25
  | .giveFunction _ k => k.weight + 27
  | .giveBody _ k => k.weight + 29
  | .fail _ k => k.weight
  | .finished _ => 0

namespace State

/-- A bound on the steps that are left. -/
def measure (s : State) : Nat := 40 * s.rest.length + s.task.weight s.rest.isEmpty

theorem length_skipAfter_le (t : Token) (ts : List Token) :
    (skipAfter t ts).length ≤ ts.length := by
  induction ts generalizing t with
  | nil => simp [skipAfter]
  | cons u us ih =>
    simp only [skipAfter]
    split
    · simp
    · have := ih u
      simp only [List.length_cons]
      omega

theorem loopWeight_le (b : Bool) : loopWeight b ≤ 24 := by cases b <;> decide

theorem weight_le (task : Task) (b : Bool) : task.weight b ≤ task.weight false := by
  cases task <;> cases b <;> simp [Task.weight, loopWeight]

theorem measure_goTo_lt {s : State} {task : Task}
    (h : task.weight s.rest.isEmpty < s.task.weight s.rest.isEmpty) :
    (s.goTo task).measure < s.measure := by
  simp only [measure, goTo]
  omega

theorem measure_take_lt {s : State} {task : Task} (hr : s.rest ≠ [])
    (h : task.weight false < s.task.weight false + 40) : (s.take task).measure < s.measure := by
  obtain ⟨t, ts, ht⟩ := List.exists_cons_of_ne_nil hr
  have := weight_le task ts.isEmpty
  simp only [measure, take, ht, List.tail_cons, List.length_cons, List.isEmpty_cons]
  omega

theorem measure_missing_lt {s : State} {what : Expected} {p : Part} {k : Pending p}
    (h : k.weight < s.task.weight s.rest.isEmpty) : (s.missing what k).measure < s.measure :=
  measure_goTo_lt h

theorem measure_require_lt {s : State} {kind : Kind} {what : Expected} {p : Part} {k : Pending p}
    {task : Token → Task} (hk : k.weight < s.task.weight s.rest.isEmpty)
    (h : ∀ t, (task t).weight false < s.task.weight false + 40) :
    (s.require kind what k task).measure < s.measure := by
  unfold require
  split
  · rename_i hr
    split
    · exact measure_take_lt (by simp [hr]) (h _)
    · exact measure_missing_lt hk
  · exact measure_missing_lt hk

theorem measure_branch_lt {s : State} {kind : Kind} {taken : Token → Task} {left : Task}
    (hl : left.weight s.rest.isEmpty < s.task.weight s.rest.isEmpty)
    (h : ∀ t, (taken t).weight false < s.task.weight false + 40) :
    (s.branch kind taken left).measure < s.measure := by
  unfold branch
  split
  · rename_i hr
    split
    · exact measure_take_lt (by simp [hr]) (h _)
    · exact measure_goTo_lt hl
  · exact measure_goTo_lt hl

theorem measure_take_of_look_lt {s : State} {kind : Kind} {task : Task} (hl : s.look = kind)
    (hk : kind ≠ .eof) (h : task.weight false < s.task.weight false + 40) :
    (s.take task).measure < s.measure := by
  refine measure_take_lt (fun hr => hk ?_) h
  simpa [look, hr] using hl.symm

theorem weight_operandTask_le (l : Level) (k : Pending .expression) (b : Bool) :
    (operandTask l k).weight b + 2 ≤ k.weight + l.weight := by
  cases l <;> simp [operandTask, Level.tighter?, Task.weight, Level.weight]

theorem weight_level_le (l : Level) : l.weight ≤ 15 := by cases l <;> decide

theorem admits_eof (l : Level) : l.admits .eof = false := by cases l <;> rfl

theorem measure_giveExpression_lt {s : State} {e : Expr} {k : Pending .expression}
    (h : s.task = .giveExpression e k) : (s.giveExpression e k).measure < s.measure := by
  cases k with
  | assignment k =>
    exact measure_branch_lt (by simp only [h, Task.weight, Pending.weight]; omega)
      fun _ => by simp only [h, Task.weight, Pending.weight]; omega
  | assigned target equals k =>
    simp only [giveExpression, assign]
    split <;> simp [measure, goTo, h, Task.weight, Pending.weight]
  | operators l k =>
    simp only [giveExpression]
    split
    · rename_i hl
      refine measure_take_of_look_lt rfl (fun hk => ?_) ?_
      · rw [hk, admits_eof] at hl
        cases hl
      · have := weight_operandTask_le l (.rightOperand l e s.next k) false
        have := weight_level_le l
        simp only [h, Task.weight, Pending.weight] at *
        omega
    · exact measure_goTo_lt (by simp only [h, Task.weight, Pending.weight]; omega)
  | rightOperand l left op k =>
    exact measure_goTo_lt (by simp only [h, Task.weight, Pending.weight]; omega)
  | operand op k => exact measure_goTo_lt (by simp only [h, Task.weight, Pending.weight]; omega)
  | trailers k =>
    simp only [giveExpression, trailers]
    split
    · exact measure_take_of_look_lt (by assumption) (by decide)
        (by simp only [h, Task.weight, Pending.weight]; omega)
    · exact measure_take_of_look_lt (by assumption) (by decide)
        (by simp only [h, Task.weight, Pending.weight]; omega)
    · exact measure_goTo_lt (by simp only [h, Task.weight, Pending.weight]; omega)
  | argument callee done k =>
    simp only [giveExpression]
    split
    · exact measure_take_of_look_lt (by assumption) (by decide)
        (by simp only [h, Task.weight, Pending.weight]; omega)
    · exact measure_require_lt (by simp only [h, Task.weight, Pending.weight]; omega)
        fun _ => by simp only [h, Task.weight, Pending.weight]; omega
  | group k | initializer name k | ifTest k | whileTest k | printed k | returned keyword k
  | expressionStatement k | forTest initializer k | forStep initializer test k =>
    exact measure_require_lt (by simp only [h, Task.weight, Pending.weight]; omega)
      fun _ => by simp only [h, Task.weight, Pending.weight]; omega

theorem measure_giveStatement_lt {s : State} {stmt : Stmt} {k : Pending .statement}
    (h : s.task = .giveStatement stmt k) : (s.giveStatement stmt k).measure < s.measure := by
  cases k with
  | thenBranch condition k =>
    exact measure_branch_lt (by simp only [h, Task.weight, Pending.weight]; omega)
      fun _ => by simp only [h, Task.weight, Pending.weight]; omega
  | program done | declarations done k =>
    have := loopWeight_le s.rest.isEmpty
    exact measure_goTo_lt (by simp only [h, Task.weight, Pending.weight]; omega)
  | elseBranch condition thenBranch k | whileBody condition k | forInitializer k
  | forBody initializer test step k =>
    exact measure_goTo_lt (by simp only [h, Task.weight, Pending.weight]; omega)

theorem measure_giveFunction_lt {s : State} {f : Function} {k : Pending .function}
    (h : s.task = .giveFunction f k) : (s.giveFunction f k).measure < s.measure := by
  cases k with
  | declared k | method className done k =>
    exact measure_goTo_lt (by simp only [h, Task.weight, Pending.weight]; omega)

theorem measure_giveBody_lt {s : State} {body : List Stmt} {k : Pending .body}
    (h : s.task = .giveBody body k) : (s.giveBody body k).measure < s.measure := by
  cases k with
  | block k | functionBody name params k =>
    exact measure_goTo_lt (by simp only [h, Task.weight, Pending.weight]; omega)

theorem length_synchronize_lt {ts : List Token} (h : ts ≠ []) :
    (synchronize ts).length < ts.length := by
  cases ts with
  | nil => exact absurd rfl h
  | cons t ts =>
    have := length_skipAfter_le t ts
    simp only [synchronize, List.length_cons]
    omega

/-- Giving up at the end of the tokens leaves nothing, and anywhere else takes a token. -/
theorem synchronize_cases (ts : List Token) :
    ts = [] ∧ synchronize ts = [] ∨ (synchronize ts).length < ts.length := by
  by_cases h : ts = []
  · exact .inl ⟨h, by simp [h, synchronize]⟩
  · exact .inr (length_synchronize_lt h)

theorem measure_fail_lt {s : State} {e : StaticError} {p : Part} {k : Pending p}
    (h : s.task = .fail e k) : (s.fail e k).measure < s.measure := by
  cases k with
  | program done =>
    simp only [fail, measure, h, Task.weight, Pending.weight]
    rcases synchronize_cases s.rest with ⟨hr, hs⟩ | hlt
    · simp [hr, synchronize, loopWeight]
    · have := loopWeight_le (synchronize s.rest).isEmpty
      omega
  | declarations done k =>
    simp only [fail, measure, h, Task.weight, Pending.weight]
    rcases synchronize_cases s.rest with ⟨hr, hs⟩ | hlt
    · simp [hr, synchronize, loopWeight]
    · have := loopWeight_le (synchronize s.rest).isEmpty
      omega
  | _ => exact measure_goTo_lt (by simp only [h, Task.weight, Pending.weight]; omega)

theorem measure_declaration_lt {s : State} {k : Pending .statement}
    (h : s.task = .declaration k) : (s.declaration k).measure < s.measure := by
  unfold declaration
  split
  · exact measure_take_of_look_lt (by assumption) (by decide)
      (by simp only [h, Task.weight]; omega)
  · exact measure_take_of_look_lt (by assumption) (by decide)
      (by simp only [h, Task.weight, Pending.weight]; omega)
  · exact measure_take_of_look_lt (by assumption) (by decide)
      (by simp only [h, Task.weight]; omega)
  · exact measure_goTo_lt (by simp only [h, Task.weight]; omega)

theorem measure_statement_lt {s : State} {k : Pending .statement}
    (h : s.task = .statement k) : (s.statement k).measure < s.measure := by
  unfold statement
  split
  case h_7 => exact measure_goTo_lt (by simp only [h, Task.weight, Pending.weight]; omega)
  all_goals
    exact measure_take_of_look_lt (by assumption) (by decide)
      (by simp only [h, Task.weight, Pending.weight, loopWeight]; omega)

theorem measure_forInitializer_lt {s : State} {k : Pending .statement}
    (h : s.task = .forInitializer k) : (s.forInitializer k).measure < s.measure := by
  unfold forInitializer
  split
  case h_3 => exact measure_goTo_lt (by simp only [h, Task.weight, Pending.weight]; omega)
  all_goals
    exact measure_take_of_look_lt (by assumption) (by decide)
      (by simp only [h, Task.weight, Pending.weight]; omega)

theorem measure_unary_lt {s : State} {k : Pending .expression}
    (h : s.task = .unary k) : (s.unary k).measure < s.measure := by
  unfold unary
  split
  case h_3 => exact measure_goTo_lt (by simp only [h, Task.weight, Pending.weight]; omega)
  all_goals
    exact measure_take_of_look_lt (by assumption) (by decide)
      (by simp only [h, Task.weight, Pending.weight]; omega)

theorem measure_reference_lt {s : State} {name : Token} {k : Pending .expression}
    (h : s.task = .primary k) (hl : s.look = .identifier) :
    (s.reference name k).measure < s.measure := by
  have : (s.take (.giveExpression (.variable s.nextId name) k)).measure < s.measure :=
    measure_take_of_look_lt hl (by decide) (by simp only [h, Task.weight]; omega)
  exact this

theorem measure_primary_lt {s : State} {k : Pending .expression}
    (h : s.task = .primary k) : (s.primary k).measure < s.measure := by
  unfold primary
  split
  case h_6 hl => exact measure_reference_lt h hl
  case h_8 => exact measure_missing_lt (by simp only [h, Task.weight]; omega)
  all_goals
    exact measure_take_of_look_lt (by assumption) (by simp)
      (by simp only [h, Task.weight, Pending.weight]; omega)

theorem measure_note (s : State) (fault : SyntaxFault) : (s.note fault).measure = s.measure := rfl

theorem measure_program_lt {s : State} {done : List Stmt} (h : s.task = .program done) :
    s.step.measure < s.measure := by
  simp only [step, h]
  split <;> rename_i hr <;>
    exact measure_goTo_lt (by simp [h, hr, Task.weight, Pending.weight, loopWeight])

theorem measure_declarations_lt {s : State} {done : List Stmt} {k : Pending .body}
    (h : s.task = .declarations done k) : s.step.measure < s.measure := by
  simp only [step, h]
  split <;> rename_i hr
  · exact measure_missing_lt (by simp [h, hr, Task.weight, loopWeight])
  · split
    · exact measure_take_lt (by simp [hr]) (by simp only [h, Task.weight, loopWeight]; omega)
    · refine measure_goTo_lt ?_
      simp only [h, hr, Task.weight, Pending.weight, List.isEmpty_cons, loopWeight]
      omega

theorem measure_methods_lt {s : State} {name : Token} {done : List Function}
    {k : Pending .statement} (h : s.task = .methods name done k) : s.step.measure < s.measure := by
  simp only [step, h]
  split <;> rename_i hr
  · exact measure_missing_lt (by simp [h, Task.weight])
  · split
    · exact measure_take_lt (by simp [hr]) (by simp only [h, Task.weight]; omega)
    · exact measure_goTo_lt (by simp only [h, Task.weight, Pending.weight]; omega)

theorem measure_parameter_lt {s : State} {c : Callable} {name : Token} {done : List Token}
    {k : Pending .function} (h : s.task = .parameter c name done k) :
    s.step.measure < s.measure := by
  simp only [step, h]
  split
  · rw [← measure_note s .tooManyParameters]
    exact measure_require_lt (by simp [note, h, Task.weight])
      fun _ => by simp only [note, h, Task.weight]; omega
  · exact measure_require_lt (by simp [h, Task.weight])
      fun _ => by simp only [h, Task.weight]; omega

theorem measure_argument_lt {s : State} {callee : Expr} {done : List Expr}
    {k : Pending .expression} (h : s.task = .argument callee done k) :
    s.step.measure < s.measure := by
  simp only [step, h]
  split
  · rw [← measure_note s .tooManyArguments]
    exact measure_goTo_lt (by simp only [note, h, Task.weight, Pending.weight]; omega)
  · exact measure_goTo_lt (by simp only [h, Task.weight, Pending.weight]; omega)

/-- Every step of an unfinished parse lowers the measure. -/
theorem measure_step_lt (s : State) (hf : ∀ p, s.task ≠ .finished p) :
    s.step.measure < s.measure := by
  cases h : s.task with
  | program done => exact measure_program_lt h
  | declarations done k => exact measure_declarations_lt h
  | methods name done k => exact measure_methods_lt h
  | parameter c name done k => exact measure_parameter_lt h
  | argument callee done k => exact measure_argument_lt h
  | declaration k => simpa only [step, h] using measure_declaration_lt h
  | statement k => simpa only [step, h] using measure_statement_lt h
  | forInitializer k => simpa only [step, h] using measure_forInitializer_lt h
  | unary k => simpa only [step, h] using measure_unary_lt h
  | primary k => simpa only [step, h] using measure_primary_lt h
  | giveExpression e k => simpa only [step, h] using measure_giveExpression_lt h
  | giveStatement stmt k => simpa only [step, h] using measure_giveStatement_lt h
  | giveFunction f k => simpa only [step, h] using measure_giveFunction_lt h
  | giveBody body k => simpa only [step, h] using measure_giveBody_lt h
  | fail e k => simpa only [step, h] using measure_fail_lt h
  | finished p => exact absurd h (hf p)
  | className k | classOpen name k | callableName c k | callableOpen c name k
  | callableBody c name params k | variableName k | forOpen k | ifOpen k | whileOpen k
  | property object k =>
    simp only [step, h]
    exact measure_require_lt (by simp [h, Task.weight])
      fun _ => by simp only [h, Task.weight, Pending.weight, loopWeight]; omega
  | parameters c name k | forTest initializer k | forStep initializer test k
  | returnValue keyword k | arguments callee k =>
    simp only [step, h]
    exact measure_branch_lt (by simp only [h, Task.weight, Pending.weight]; omega)
      fun _ => by simp only [h, Task.weight, Pending.weight]; omega
  | parameterEnd c name done k =>
    simp only [step, h]
    split
    · exact measure_take_of_look_lt (by assumption) (by decide)
        (by simp only [h, Task.weight]; omega)
    · exact measure_require_lt (by simp [h, Task.weight])
        fun _ => by simp only [h, Task.weight]; omega
  | variableValue name k =>
    simp only [step, h]
    split
    · exact measure_take_of_look_lt (by assumption) (by decide)
        (by simp only [h, Task.weight, Pending.weight]; omega)
    · exact measure_require_lt (by simp [h, Task.weight])
        fun _ => by simp only [h, Task.weight]; omega
  | expression k =>
    simp only [step, h]
    exact measure_goTo_lt (by simp only [h, Task.weight, Pending.weight, Level.weight]; omega)
  | level l k =>
    simp only [step, h]
    have := weight_operandTask_le l (.operators l k) s.rest.isEmpty
    exact measure_goTo_lt (by simp only [h, Task.weight, Pending.weight] at *; omega)

end State

end Lox.Parse
