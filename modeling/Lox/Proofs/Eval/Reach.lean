/-
Execution touches only what it can reach. As long as all that an evaluation holds on to is in a region
of the heap that no link leads out of (`Control.Within`), a step stays inside, changes nothing outside,
and is the same whatever is outside (`step_beside`).

So a statement leaves alone what cannot be reached from its frame and from the top level, and a call
what cannot be reached from the function, its arguments and the top level: whatever the caller alone
can reach is neither changed nor read (`execution_confined`).
-/
import Lox.Proofs.Eval.Home
import Lox.Proofs.Eval.Recode
import Lox.Proofs.Eval.Sequence
import Lox.Proofs.Heap.Reach

namespace Lox

/-- The native does not touch the heap: it does not look at it, and hands out no cell but those it was
given. -/
structure Native.Detached (n : Native) : Prop where
  blind : n.Blind
  answers : ∀ call v, n.act call = .ok v → ∀ c, v.cell? = some c →
    ∃ arg ∈ call.args, arg.cell? = some c

theorem detached_clock : Native.clock.Detached where
  blind := blind_clock
  answers := by
    rintro call v ⟨⟩ c ⟨⟩

/-- The answer is in every region that the arguments are in. -/
theorem Native.Detached.within {n : Native} (detached : n.Detached) {R : Cell → Prop}
    {call : NativeCall} (hargs : ∀ v ∈ call.args, v.Within R) {v : Value}
    (answer : n.act call = .ok v) : v.Within R := by
  intro c cell
  obtain ⟨arg, mem, cell'⟩ := detached.answers call v answer c cell
  exact hargs arg mem c cell'

namespace Eval

/-! ## What an evaluation holds on to -/

def Flow.cell? : Flow → Option Cell
  | .normal => none
  | .returned v => v.cell?

/-- The cell that comes out of an evaluation. -/
def Outcome.cell? : Outcome → Option Cell
  | .value v => v.cell?
  | .flow f => f.cell?
  | .fault _ => none

section

variable (R : Cell → Prop)

/-- The cells that what waits holds on to are in the region. -/
def Cont.Within : {a : Answer} → Cont a → Prop
  | _, .value => True
  | _, .flow => True
  | _, .operand _ k => k.Within
  | _, .leftOperand _ _ k => k.Within
  | _, .rightOperand _ left k => left.Within R ∧ k.Within
  | _, .decision _ _ k => k.Within
  | _, .assigned _ _ k => k.Within
  | _, .callee _ _ k => k.Within
  | _, .argument f _ done _ k => f.Within R ∧ (∀ v ∈ done, v.Within R) ∧ k.Within
  | _, .getObject _ k => k.Within
  | _, .setObject _ _ k => k.Within
  | _, .setValue target _ k => R (.instance target) ∧ k.Within
  | _, .discarded k => k.Within
  | _, .printed k => k.Within
  | _, .initializer _ k => k.Within
  | _, .returned k => k.Within
  | _, .ifTest _ _ k => k.Within
  | _, .whileTest _ _ k => k.Within
  | _, .whileBody _ _ k => k.Within
  | _, .sequence _ k => k.Within
  | _, .blockEnd frame k => R (.frame frame) ∧ k.Within
  | _, .callEnd frame k => R (.frame frame) ∧ k.Within

def Control.Within : Control → Prop
  | .evaluate _ k => k.Within R
  | .execute _ k => k.Within R
  | .executeAll _ k => k.Within R
  | .call callee _ args k => callee.Within R ∧ (∀ v ∈ args, v.Within R) ∧ k.Within R
  | .give v k => v.Within R ∧ k.Within R
  | .finish f k => (∀ c, f.cell? = some c → R c) ∧ k.Within R
  | .raise _ k => k.Within R
  | .ended o => ∀ c, o.cell? = some c → R c

end

end Eval

/-! ## Interpreters in a region -/

/-- The interpreter is in the region, and the other heap differs from its heap outside only. -/
structure Interpreter.Inside (R : Cell → Prop) (it : Interpreter) (h : Heap) : Prop where
  frame : R (.frame it.frame)
  globals : R (.frame it.globals)
  closed : it.heap.Closed R
  agrees : it.heap.Agrees R h
  detached : ∀ n ∈ it.natives, n.Detached

namespace Interpreter.Inside

variable {R : Cell → Prop} {it : Interpreter} {h : Heap} {f : FrameRef} {name : String} {v : Value}

theorem define (inside : it.Inside R h) (within : v.Within R) :
    (it.define f name v).Inside R (h.define f name v) :=
  ⟨inside.frame, inside.globals, inside.closed.define within, inside.agrees.define, inside.detached⟩

theorem enter (inside : it.Inside R h) (hf : R (.frame f)) : (it.enter f).Inside R h :=
  ⟨hf, inside.globals, inside.closed, inside.agrees, inside.detached⟩

theorem enterNew (inside : it.Inside R h) (hf : R (.frame f)) {bindings : Bindings Value}
    (within : ∀ name v, bindings.get? name = some v → v.Within R) :
    (it.enterNew f bindings).Inside R (h.newFrame (some f) bindings).2 :=
  ⟨inside.closed.new _ (Nat.lt_irrefl _), inside.globals, inside.closed.newFrame hf within,
    inside.agrees.newFrame, inside.detached⟩

theorem newClass (inside : it.Inside R h) (name : String) :
    { it with heap := (it.heap.newClass name).2 }.Inside R (h.newClass name).2 :=
  ⟨inside.frame, inside.globals, inside.closed.newClass name, inside.agrees.newClass name,
    inside.detached⟩

theorem newFunction (inside : it.Inside R h) {c : Closure} (hc : R (.frame c.frame)) :
    { it with heap := (it.heap.newFunction c).2 }.Inside R (h.newFunction c).2 :=
  ⟨inside.frame, inside.globals, inside.closed.newFunction hc, inside.agrees.newFunction,
    inside.detached⟩

theorem newInstance (inside : it.Inside R h) (cls : ClassRef) :
    { it with heap := (it.heap.newInstance cls).2 }.Inside R (h.newInstance cls).2 :=
  ⟨inside.frame, inside.globals, inside.closed.newInstance, inside.agrees.newInstance,
    inside.detached⟩

/-- Both interpreters enter a frame of the same index. -/
theorem enterNew_eq (inside : it.Inside R h) (f : FrameRef) (bindings : Bindings Value) :
    ({ it with heap := h } : Interpreter).enterNew f bindings =
      { it.enterNew f bindings with heap := (h.newFrame (some f) bindings).2 } := by
  simp [Interpreter.enterNew, Heap.newFrame, inside.agrees.frameCount]

/-- A reference means the same frame in both heaps, and one of the region. -/
theorem referred? (inside : it.Inside R h) (id : Nat) (name : String) :
    ({ it with heap := h } : Interpreter).referred? id name = it.referred? id name ∧
      ∀ f, it.referred? id name = some f → R (.frame f) := by
  simp only [Interpreter.referred?]
  cases it.distances[id]? with
  | some d => exact inside.closed.ownerAt? inside.agrees inside.frame d name
  | none => exact inside.closed.owner? inside.agrees inside.globals name

/-- A variable is read alike in both heaps, and what is read is of the region. -/
theorem read_eq (inside : it.Inside R h) (id : Nat) (name : String) :
    (({ it with heap := h } : Interpreter).referred? id name).bind (h.get? · name) =
      (it.referred? id name).bind (it.heap.get? · name) := by
  obtain ⟨same, reached⟩ := inside.referred? id name
  rw [same]
  cases found : it.referred? id name with
  | none => rfl
  | some f => exact inside.agrees.get? (reached f found)

theorem within_read (inside : it.Inside R h) {id : Nat} {name : String}
    (found : (it.referred? id name).bind (it.heap.get? · name) = some v) : v.Within R := by
  obtain ⟨f, referred, bound⟩ := Option.bind_eq_some_iff.1 found
  exact fun c cell => inside.closed.link ((inside.referred? id name).2 f referred) (.bound bound cell)

theorem within_field (inside : it.Inside R h) {i : InstanceRef} (hi : R (.instance i))
    (found : it.heap.field? i name = some v) : v.Within R :=
  fun _ cell => inside.closed.link hi (.field found cell)

/-- A value of the region takes as many arguments in both heaps. -/
theorem arity?_eq (inside : it.Inside R h) (within : v.Within R) :
    Eval.arity? { it with heap := h } v = Eval.arity? it v := by
  cases v with
  | function f => rw [Eval.arity?, Eval.arity?, inside.agrees.functions f (within _ rfl)]
  | _ => rfl

end Interpreter.Inside

namespace Eval

/-! ## Steps -/

/-- The evaluation is in the region, the other one is the same but for what its heap has outside, and
outside the first one's heap is as it was. -/
structure State.Beside (R : Cell → Prop) (before : Heap) (s t : State) : Prop where
  within : s.control.Within R
  inside : s.it.Inside R t.it.heap
  control : t.control = s.control
  it : t.it = { s.it with heap := t.it.heap }
  spares : before.Spares R s.it.heap

open State (Beside)

variable {R : Cell → Prop} {it : Interpreter} {before h : Heap}

theorem inside_leave (inside : it.Inside R h) {f : FrameRef} (hf : R (.frame f)) :
    (leave it f).Inside R h :=
  ⟨hf, inside.globals, inside.closed, inside.agrees, inside.detached⟩

theorem inside_setField (inside : it.Inside R h) {i : InstanceRef} {name : String} {v : Value}
    (within : v.Within R) :
    { it with heap := it.heap.setField i name v }.Inside R (h.setField i name v) :=
  ⟨inside.frame, inside.globals, inside.closed.setField within, inside.agrees.setField,
    inside.detached⟩

/-- What is counted and printed is no matter of regions. -/
theorem inside_advance (inside : it.Inside R h) :
    { it with clock := it.clock.advance }.Inside R h :=
  ⟨inside.frame, inside.globals, inside.closed, inside.agrees, inside.detached⟩

theorem inside_printed (inside : it.Inside R h) (v : Value) : (withPrinted it v).Inside R h :=
  ⟨inside.frame, inside.globals, inside.closed, inside.agrees, inside.detached⟩

theorem inside_withClass (inside : it.Inside R h) (name : String) :
    (withClass it name).Inside R ((h.define it.frame name .nil).newClass name).2 :=
  (inside.define (v := .nil) within_none).newClass name

theorem newClass_eq (inside : it.Inside R h) (name : String) :
    newClass { it with heap := h } name = newClass it name :=
  (inside.define (v := .nil) within_none).agrees.newClass_fst name

/-- The class is made in the frame that the evaluation is in. -/
theorem spares_withClass (inside : it.Inside R h) (spares : before.Spares R it.heap) (name : String) :
    before.Spares R (withClass it name).heap :=
  (spares.trans (Heap.spares_define inside.frame)).trans (Heap.spares_newClass _ name)

theorem beside (inside : it.Inside R h) (spares : before.Spares R it.heap) {c : Control}
    (within : c.Within R) : Beside R before ⟨c, it⟩ ⟨c, { it with heap := h }⟩ :=
  ⟨within, inside, rfl, rfl, spares⟩

theorem within_parameterBindings {params : List Token} {args : List Value}
    (hargs : ∀ v ∈ args, v.Within R) (name : String) (v : Value)
    (hv : (parameterBindings params args).get? name = some v) : v.Within R := by
  -- what is bound so far is bound to arguments
  suffices ∀ pairs : List (Token × Value), (∀ pair ∈ pairs, pair.2.Within R) →
      ∀ b : Bindings Value, (∀ v, b.get? name = some v → v.Within R) →
      (pairs.foldl (fun b pair => b.put pair.1.lexeme pair.2) b).get? name = some v →
        v.Within R from
    this _ (fun pair mem => hargs _ (List.of_mem_zip mem).2) .empty (within_empty name) hv
  intro pairs
  induction pairs with
  | nil => exact fun _ b hb hv => hb v hv
  | cons pair pairs ih =>
    intro hpairs b hb
    refine ih (fun pair mem => hpairs pair (.tail _ mem)) _ fun v hv => ?_
    rw [Bindings.get?_put] at hv
    split at hv
    · cases hv
      exact hpairs pair (.head _)
    · exact hb v hv

theorem within_of_prefixValue {op : Kind} {v w : Value} (h : prefixValue op v = .ok w) :
    w.Within R := by
  unfold prefixValue at h
  repeat' split at h
  all_goals cases h
  all_goals exact within_none

theorem within_of_infixValue {op : Kind} {v v' w : Value} (h : infixValue op v v' = .ok w) :
    w.Within R := by
  unfold infixValue numeric at h
  repeat' split at h
  all_goals cases h
  all_goals exact within_none

theorem beside_entered {closure : Closure} {args : List Value}
    (inside : (it.enter closure.frame).Inside R h) (spares : before.Spares R it.heap)
    (hargs : ∀ v ∈ args, v.Within R) {k : Cont .flow} (hk : k.Within R) :
    Beside R before ⟨.executeAll closure.decl.body k, entered it closure args⟩
      ⟨.executeAll closure.decl.body k, entered { it with heap := h } closure args⟩ := by
  have within := @within_parameterBindings R closure.decl.params args hargs
  have new := inside.enterNew inside.frame within
  have other := inside.enterNew_eq closure.frame (parameterBindings closure.decl.params args)
  exact ⟨hk, ⟨new.frame, new.globals, new.closed, new.agrees, new.detached⟩, rfl,
    congrArg (fun it' : Interpreter => { it' with depth := it.depth + 1 }) other,
    spares.trans inside.closed.spares_newFrame⟩

theorem beside_function (inside : it.Inside R h) (spares : before.Spares R it.heap)
    (decl : Function) {k : Cont .flow} (hk : k.Within R) :
    Beside R before (declareFunction it decl k) (declareFunction { it with heap := h } decl k) := by
  have made := @Interpreter.Inside.newFunction _ _ _ inside ⟨decl, it.frame⟩ inside.frame
  have value : (it.heap.newFunction ⟨decl, it.frame⟩).1.Within R := inside.closed.new_function
  simp only [declareFunction, inside.agrees.newFunction_fst]
  refine beside (made.define value) ?_ ⟨within_none, hk⟩
  exact (spares.trans inside.closed.spares_newFunction).trans (Heap.spares_define inside.frame)

theorem withPrinted_eq (inside : it.Inside R h) {v : Value} (within : v.Within R) :
    withPrinted { it with heap := h } v = { withPrinted it v with heap := h } := by
  rw [withPrinted, inside.agrees.text within]
  rfl

/-- What is held on to behind a turn was held on to before, or is read in the heap. -/
theorem Turn.within {c c' : Control} (turn : Turn it c c')
    (read : ∀ {id name v}, (it.referred? id name).bind (it.heap.get? · name) = some v → v.Within R)
    (field : ∀ {i name v}, R (.instance i) → it.heap.field? i name = some v → v.Within R)
    (within : c.Within R) : c'.Within R := by
  cases turn with
  | literal l k =>
    refine ⟨?_, within⟩
    cases l <;> exact within_none
  | read id name v k found => exact ⟨read found, within⟩
  | operated op v w k value => exact ⟨within_of_prefixValue value, within.2⟩
  | rightOperand => exact ⟨within.1, within.2⟩
  | combined op left v w k value => exact ⟨within_of_infixValue value, within.2.2⟩
  | undecided | thenBranch | elseBranch | body => exact within.2
  | noArgument => exact ⟨within.1, List.forall_mem_nil _, within.2⟩
  | firstArgument => exact ⟨within.1, List.forall_mem_nil _, within.2⟩
  | lastArgument =>
    obtain ⟨hv, hcallee, hdone, hk⟩ := within
    exact ⟨hcallee, fun w mem => List.forall_mem_cons.2 ⟨hv, hdone⟩ w (List.mem_reverse.1 mem), hk⟩
  | nextArgument =>
    obtain ⟨hv, hcallee, hdone, hk⟩ := within
    exact ⟨hcallee, List.forall_mem_cons.2 ⟨hv, hdone⟩, hk⟩
  | property i name w k found => exact ⟨field (within.1 _ rfl) found, within.2⟩
  | target => exact ⟨within.1 _ rfl, within.2⟩
  | returnNil | noStatement => exact ⟨within_none, within⟩
  | discarded | noBranch | loopEnd => exact ⟨within_none, within.2⟩
  | rest | again => exact within.2
  | yield e k k' yields =>
    cases yields with
    | rightOperand | setValue => exact within.2
    | argument => exact within.2.2
    | _ => exact within
  | valueEnd | flowEnd => exact within.1
  | faultOfValue | faultOfFlow => exact within_none
  | _ => exact within

theorem Fail.within {c : Control} {e : RuntimeError} {k : Cont .value} (fail : Fail it c e k)
    (within : c.Within R) : k.Within R := by
  cases fail with
  | unread => exact within
  | operands | uncallable | miscounted | refused => exact within.2.2
  | _ => exact within.2

/-- What a turn reads in the heap is in the region, so it is there in the other heap. -/
theorem Turn.with_heap {c c' : Control} (turn : Turn it c c') (inside : it.Inside R h)
    (within : c.Within R) : Turn { it with heap := h } c c' := by
  refine turn.of_reads (fun id name k _ => inside.read_eq id name.lexeme) fun i name k same => ?_
  subst same
  exact inside.agrees.field? (within.1 _ rfl)

/-- And what it misses there is missed in both. -/
theorem Fail.with_heap {c : Control} {e : RuntimeError} {k : Cont .value} (fail : Fail it c e k)
    (inside : it.Inside R h) (within : c.Within R) : Fail { it with heap := h } c e k := by
  cases fail with
  | unread id name k none => exact .unread id name k ((inside.read_eq id _).trans none)
  | unwritten id name v k none =>
    exact .unwritten id name v k ((inside.referred? id name.lexeme).1.trans none)
  | operand op v fault k value => exact .operand op v fault k value
  | operands op left v fault k value => exact .operands op left v fault k value
  | noProperty i name k none =>
    exact .noProperty i name k ((inside.agrees.field? (within.1 _ rfl)).trans none)
  | noObject v name k other => exact .noObject v name k other
  | noTarget v name value k other => exact .noTarget v name value k other
  | uncallable callee paren args k none =>
    exact .uncallable callee paren args k ((inside.arity?_eq within.1).trans none)
  | miscounted callee paren args n k takes other =>
    exact .miscounted callee paren args n k ((inside.arity?_eq within.1).trans takes) other
  | refused f c paren args k found arity full =>
    exact .refused f c paren args k ((inside.agrees.functions f (within.1 _ rfl)).trans found) arity full

/-- By the rule that one evaluation goes by, the other one stays beside it. -/
theorem Rule.beside {s s' : State} (rule : Rule s s') {t : State} (both : Beside R before s t) :
    ∃ t', Rule t t' ∧ Beside R before s' t' := by
  obtain ⟨control, it'⟩ := t
  obtain ⟨within, inside, same, other, spares⟩ := both
  dsimp only at within inside same other spares
  generalize it'.heap = h at inside other
  subst same other
  cases rule with
  | turn turn =>
    exact ⟨_, .turn (turn.with_heap inside within),
      Eval.beside inside spares (turn.within inside.within_read inside.within_field within)⟩
  | fail fail =>
    exact ⟨_, .fail (fail.with_heap inside within), Eval.beside inside spares (fail.within within)⟩
  | varNil it name k =>
    exact ⟨_, .varNil .., Eval.beside (inside.define (v := .nil) within_none)
      (spares.trans (Heap.spares_define inside.frame)) ⟨within_none, within⟩⟩
  | var it name v k =>
    exact ⟨_, .var .., Eval.beside (inside.define within.1)
      (spares.trans (Heap.spares_define inside.frame)) ⟨within_none, within.2⟩⟩
  | function it decl k => exact ⟨_, .function .., beside_function inside spares decl within⟩
  | «class» it name methods f k found =>
    have made := inside_withClass inside name.lexeme
    obtain ⟨same, reached⟩ := made.closed.owner? made.agrees made.frame name.lexeme
    refine ⟨_, .class _ name methods f k (same.trans found), ?_⟩
    rw [newClass_eq inside]
    exact Eval.beside (made.define (Heap.within_newClass _ _))
      ((spares_withClass inside spares _).trans (Heap.spares_define (reached f found)))
      ⟨within_none, within⟩
  | lostClass it name methods k none =>
    have made := inside_withClass inside name.lexeme
    obtain ⟨same, -⟩ := made.closed.owner? made.agrees made.frame name.lexeme
    exact ⟨_, .lostClass _ name methods k (same.trans none),
      Eval.beside made (spares_withClass inside spares _) within⟩
  | write it id name f v k found =>
    obtain ⟨same, reached⟩ := inside.referred? id name.lexeme
    exact ⟨_, .write _ id name f v k (same.trans found), Eval.beside (inside.define within.1)
      (spares.trans (Heap.spares_define (reached f found))) within⟩
  | setField it i name v k =>
    exact ⟨_, .setField .., Eval.beside (inside_setField inside within.1)
      (spares.trans (Heap.spares_setField within.2.1)) ⟨within.1, within.2.2⟩⟩
  | block it body k =>
    refine ⟨_, .block .., ?_⟩
    rw [inside.enterNew_eq]
    exact Eval.beside (inside.enterNew inside.frame within_empty)
      (spares.trans inside.closed.spares_newFrame) ⟨inside.frame, within⟩
  | blockEnd it f frame k =>
    exact ⟨_, .blockEnd .., Eval.beside (inside.enter within.2.1) spares ⟨within.1, within.2.2⟩⟩
  | blockFault it e frame k =>
    exact ⟨_, .blockFault .., Eval.beside (inside.enter within.1) spares within.2⟩
  | call it f c paren args k found arity room =>
    have hf : R (.function f) := within.1 _ rfl
    exact ⟨_, .call _ f c paren args k ((inside.agrees.functions f hf).trans found) arity room,
      beside_entered (inside.enter (inside.closed.link hf (.captured found))) spares within.2.1
        ⟨inside.frame, within.2.2⟩⟩
  | callEnd it frame k =>
    exact ⟨_, .callEnd .., Eval.beside (inside_leave inside within.2.1) spares ⟨within_none, within.2.2⟩⟩
  | callReturn it v frame k =>
    exact ⟨_, .callReturn .., Eval.beside (inside_leave inside within.2.1) spares ⟨within.1, within.2.2⟩⟩
  | callFault it e frame k =>
    exact ⟨_, .callFault .., Eval.beside (inside_leave inside within.1) spares within.2⟩
  | native it n native paren args v k found arity answer =>
    have detached := inside.detached native (Array.mem_of_getElem? found)
    exact ⟨_, .native _ n native paren args v k found arity ((detached.blind ..).trans answer),
      Eval.beside (inside_advance inside) spares ⟨detached.within within.2.1 answer, within.2.2⟩⟩
  | nativeFault it n native paren args message k found arity answer =>
    have detached := inside.detached native (Array.mem_of_getElem? found)
    exact ⟨_, .nativeFault _ n native paren args message k found arity
      ((detached.blind ..).trans answer), Eval.beside (inside_advance inside) spares within.2.2⟩
  | instantiate it c paren k =>
    refine ⟨_, .instantiate .., ?_⟩
    rw [inside.agrees.newInstance_fst]
    exact Eval.beside (inside.newInstance c) (spares.trans inside.closed.spares_newInstance)
      ⟨inside.closed.new_instance, within.2.2⟩
  | printed it v k accepted =>
    rw [← inside.agrees.text within.1] at accepted
    refine ⟨_, .printed _ v k accepted, ?_⟩
    rw [withPrinted_eq inside within.1]
    exact Eval.beside (inside_printed inside v) spares ⟨within_none, within.2⟩
  | unprinted it v refusal k refused =>
    rw [← inside.agrees.text within.1] at refused
    refine ⟨_, .unprinted _ v refusal k refused, ?_⟩
    rw [withPrinted_eq inside within.1]
    exact Eval.beside (inside_printed inside v) spares within.2

/-- A step stays in the region, leaves what is outside as it is, and does not depend on it. -/
theorem step_beside {s t : State} (h : Beside R before s t) : Beside R before s.step t.step := by
  obtain ⟨t', rule, beside⟩ := (step_rule s).beside h
  rwa [rule.step_eq]

theorem run_beside {s t : State} (h : Beside R before s t) (n : Nat) :
    Beside R before (s.run n) (t.run n) := by
  induction n generalizing s t with
  | zero => exact h
  | succ n ih =>
    rw [run_succ, run_succ]
    exact ih (step_beside h)

theorem State.Beside.symm {s t : State} (h : Beside R before s t) {before' : Heap}
    (spares : before'.Spares R t.it.heap) : Beside R before' t s where
  within := h.control ▸ h.within
  inside := by
    rw [h.it]
    exact ⟨h.inside.frame, h.inside.globals, h.inside.agrees.closed h.inside.closed,
      h.inside.agrees.symm, h.inside.detached⟩
  control := h.control.symm
  it := by rw [h.it]
  spares := spares

/-! ## Whole evaluations -/

/-- An evaluation that ends does so in the region, and the other one ends as it does. -/
theorem State.Ends.beside {s t : State} {o : Outcome} (ends : s.Ends o it) (h : Beside R before s t) :
    ∃ h', t.Ends o { it with heap := h' } ∧ it.Inside R h' ∧ before.Spares R it.heap ∧
      ∀ c, o.cell? = some c → R c := by
  obtain ⟨n, hn⟩ := ends
  have reached := run_beside h n
  rw [hn] at reached
  refine ⟨(t.run n).it.heap, ⟨n, ?_⟩, reached.inside, reached.spares, reached.within⟩
  exact congrArg₂ State.mk reached.control reached.it

/-- Behind its body a call goes back and gives what was returned; the heap plays no part. -/
theorem ends_callEnd {o o' : Outcome} {frame : FrameRef} {it it' : Interpreter}
    (ends : State.Ends ⟨o.handOn (.callEnd frame .value), it⟩ o' it') :
    it'.heap = it.heap ∧ (∀ c, o'.cell? = some c → o.cell? = some c) ∧
      ∀ h, State.Ends ⟨o.handOn (.callEnd frame .value), { it with heap := h }⟩ o'
        { it' with heap := h } := by
  -- the same end for every heap
  obtain ⟨o₁, leave, ends', cell, heap⟩ : ∃ (o₁ : Outcome) (leave : Interpreter → Interpreter),
      (∀ it, State.Ends ⟨o.handOn (.callEnd frame .value), it⟩ o₁ (leave it)) ∧
      (∀ c, o₁.cell? = some c → o.cell? = some c) ∧
      ∀ it h, (leave it).heap = it.heap ∧ leave { it with heap := h } = { leave it with heap := h } := by
    cases o with
    | value v => exact ⟨.value v, id, fun it => ends_ended _ it, fun _ => id, fun _ _ => ⟨rfl, rfl⟩⟩
    | flow f =>
      cases f with
      | normal => exact ⟨.value .nil, _, fun it => ⟨2, rfl⟩, within_none, fun _ _ => ⟨rfl, rfl⟩⟩
      | returned v => exact ⟨.value v, _, fun it => ⟨2, rfl⟩, fun _ => id, fun _ _ => ⟨rfl, rfl⟩⟩
    | fault e => exact ⟨.fault e, _, fun it => ⟨2, rfl⟩, within_none, fun _ _ => ⟨rfl, rfl⟩⟩
  obtain ⟨rfl, rfl⟩ := ends.unique (ends' it)
  exact ⟨(heap it it.heap).1, cell, fun h => (heap it h).2 ▸ ends' _⟩

/-- Whether a function is entered does not depend on the heap. -/
theorem step_call_function (it : Interpreter) (f : FunctionRef) (closure : Closure) (paren : Token)
    (args : List Value) :
    (∃ e, ∀ h : Heap, h.function? f = some closure →
      State.step ⟨.call (.function f) paren args .value, { it with heap := h }⟩ =
        ⟨.raise e .value, { it with heap := h }⟩) ∨
    ∀ h : Heap, h.function? f = some closure →
      State.step ⟨.call (.function f) paren args .value, { it with heap := h }⟩ =
        State.onto ⟨.executeAll closure.decl.body .flow, entered { it with heap := h } closure args⟩
          (.callEnd it.frame .value) := by
  by_cases arity : args.length = closure.decl.params.length
  · rcases Nat.lt_or_ge it.depth it.maxDepth with room | full
    · refine .inr fun h found => ?_
      exact (Rule.call { it with heap := h } f closure paren args .value found arity room).step_eq
    · refine .inl ⟨.stackOverflow paren, fun h found => ?_⟩
      exact (@Fail.refused { it with heap := h } f closure paren args .value found arity full).step_eq
  · refine .inl ⟨.failure paren (.argumentCount closure.decl.params.length args.length), ?_⟩
    intro h found
    have takes : arity? { it with heap := h } (.function f) = some closure.decl.params.length := by
      rw [arity?, found]
      rfl
    exact (Fail.miscounted _ paren args _ .value takes arity).step_eq

theorem call_confined {f : FunctionRef} {closure : Closure} {paren : Token} {args : List Value}
    {o : Outcome} {it' : Interpreter}
    (inside : ∀ h, it.heap.Agrees R h → (it.enter closure.frame).Inside R h)
    (found : it.heap.function? f = some closure) (hargs : ∀ v ∈ args, v.Within R)
    (ends : State.Ends ⟨.call (.function f) paren args .value, it⟩ o it') {h : Heap}
    (agrees : it.heap.Agrees R h) (found' : h.function? f = some closure) :
    it.heap.Spares R it'.heap ∧ (∀ c, o.cell? = some c → R c) ∧
    ∃ h', State.Ends ⟨.call (.function f) paren args .value, { it with heap := h }⟩ o
        { it' with heap := h' } ∧
      it'.heap.Closed R ∧ it'.heap.Agrees R h' ∧ h.Spares R h' := by
  have inside := inside h agrees
  rcases step_call_function it f closure paren args with ⟨e, refused⟩ | enters
  · rw [← ends_step, refused it.heap found] at ends
    obtain ⟨rfl, rfl⟩ := ends.unique (ends_step.1 (ends_ended (.fault e) it))
    refine ⟨.refl _ _, within_none, h, ?_, inside.closed, agrees, .refl _ _⟩
    rw [← ends_step, refused h found']
    exact ends_step.1 (ends_ended _ _)
  · rw [← ends_step, enters it.heap found, ends_onto rfl] at ends
    obtain ⟨o₁, it₁, body, behind⟩ := ends
    have both := @beside_entered _ _ _ _ _ _ inside (.refl _ _) hargs .flow trivial
    obtain ⟨h₁, body', inside₁, spares, cells⟩ := body.beside both
    obtain ⟨-, -, -, spares', -⟩ := body'.beside
      (both.symm (inside.agrees.closed inside.closed).spares_newFrame)
    obtain ⟨heap, cell, all⟩ := ends_callEnd behind
    refine ⟨heap ▸ spares, fun c hc => cells c (cell c hc), h₁, ?_, heap ▸ inside₁.closed,
      heap ▸ inside₁.agrees, ?_⟩
    · rw [← ends_step, enters h found', ends_onto rfl]
      exact ⟨o₁, _, body', all h₁⟩
    · exact spares'

end Eval

open Eval

/-- Execution touches only what it can reach. Frames and instances that were there before and cannot be
reached from the current frame and from the top level keep their contents while a statement is
executed, whatever it ends with, and cannot be reached afterwards, from the result neither. For a
call of a function the same holds of what cannot be reached from the frame that the function keeps,
from its arguments and from the top level; and with other contents there the call ends as it does, so
it does not read what the caller alone can reach. -/
theorem execution_confined (it : Interpreter) (detached : ∀ n ∈ it.natives, n.Detached) :
    (∀ s o it', State.Ends ⟨.execute s .flow, it⟩ o it' →
      it.heap.Confined [.frame it.frame, .frame it.globals] it'.heap
        (.frame it'.frame :: .frame it'.globals :: o.cell?.toList)) ∧
    ∀ f closure paren args o it', it.heap.function? f = some closure →
      State.Ends ⟨.call (.function f) paren args .value, it⟩ o it' →
      let roots := .frame closure.frame :: .frame it.globals :: args.filterMap Value.cell?
      it.heap.Confined roots it'.heap (roots ++ o.cell?.toList) ∧
      ∀ h, it.heap.Agrees (it.heap.Reachable roots) h → h.function? f = some closure →
        ∃ h', State.Ends ⟨.call (.function f) paren args .value, { it with heap := h }⟩ o
            { it' with heap := h' } ∧
          it'.heap.Agrees (it.heap.Touchable roots) h' ∧ h.Spares (it.heap.Touchable roots) h' := by
  constructor
  · intro s o it' ends
    let roots := [Cell.frame it.frame, .frame it.globals]
    have inside : it.Inside (it.heap.Touchable roots) it.heap :=
      ⟨.inl (Heap.reachable_root (.head _)), .inl (Heap.reachable_root (.tail _ (.head _))),
        it.heap.closed_touchable roots, .refl _ _, detached⟩
    obtain ⟨h', -, inside', spares, cells⟩ := ends.beside (@beside _ _ _ _ inside (.refl _ _)
      (.execute s .flow) trivial)
    refine spares.confined inside'.closed fun c mem => ?_
    rcases List.mem_cons.1 mem with rfl | mem
    · exact inside'.frame
    · rcases List.mem_cons.1 mem with rfl | mem
      · exact inside'.globals
      · exact cells c (Option.mem_toList.1 mem)
  · intro f closure paren args o it' found ends roots
    have root : ∀ c ∈ roots, it.heap.Touchable roots c := fun c mem => .inl (Heap.reachable_root mem)
    have inside : ∀ h, it.heap.Agrees (it.heap.Touchable roots) h →
        (it.enter closure.frame).Inside (it.heap.Touchable roots) h := fun h agrees =>
      ⟨root _ (.head _), root _ (.tail _ (.head _)), it.heap.closed_touchable roots, agrees, detached⟩
    have hargs : ∀ v ∈ args, v.Within (it.heap.Touchable roots) := fun v mem c cell =>
      root c (.tail _ (.tail _ (List.mem_filterMap.2 ⟨v, mem, cell⟩)))
    constructor
    · obtain ⟨spares, cells, -, -, closed, -, -⟩ :=
        call_confined inside found hargs ends (.refl _ _) found
      refine spares.confined closed fun c mem => ?_
      rcases List.mem_append.1 mem with mem | mem
      · exact root c mem
      · exact cells c (Option.mem_toList.1 mem)
    · intro h agrees found'
      obtain ⟨-, -, h', ends', -, agrees', spares⟩ :=
        call_confined inside found hargs ends agrees.touchable found'
      exact ⟨h', ends', agrees', spares⟩

/-- A function that assigns and reads a variable of the top level leaves alone the frame it is called
from, and what that frame binds makes no difference to it. Executed as a block at the top level, its
body leaves the frame alone too. -/
theorem execution_confined_caller :
    let n : Token := ⟨.identifier, "n", 1⟩
    let body : List Stmt := [.expression (.assign 0 n (.literal (.bool true))),
      .return ⟨.return, "return", 1⟩ (some (.variable 1 n))]
    let start := Interpreter.start 8 .unlimited (.stopped 0)
    let caller (kept : Value) : Interpreter :=
      let it := (start.define ⟨0⟩ "n" .nil).enterNew ⟨0⟩ (Bindings.empty.put "kept" kept)
      { it with heap := (it.heap.newFunction ⟨⟨⟨.identifier, "f", 1⟩, [], body⟩, ⟨0⟩⟩).2 }
    let call : Control := .call (.function ⟨0⟩) ⟨.rightParen, ")", 1⟩ [] .value
    (∃ it', State.Ends ⟨.execute (.block body) .flow, (caller .nil).enter ⟨0⟩⟩
        (.flow (.returned (.bool true))) it' ∧
      it'.heap.frame? ⟨1⟩ = (caller .nil).heap.frame? ⟨1⟩ ∧
      ¬it'.heap.Reachable [.frame it'.frame, .frame it'.globals] (.frame ⟨1⟩)) ∧
    ∃ it', State.Ends ⟨call, caller .nil⟩ (.value (.bool true)) it' ∧
      it'.heap.frame? ⟨1⟩ = (caller .nil).heap.frame? ⟨1⟩ ∧
      ¬it'.heap.Reachable [.frame ⟨0⟩, .frame ⟨0⟩] (.frame ⟨1⟩) ∧
      ∃ h', State.Ends ⟨call, caller (.bool false)⟩ (.value (.bool true)) { it' with heap := h' } ∧
        h'.frame? ⟨1⟩ = (caller (.bool false)).heap.frame? ⟨1⟩ ∧
        h'.get? ⟨0⟩ "n" = it'.heap.get? ⟨0⟩ "n" := by
  intro n body start caller call
  have detached : ∀ n ∈ (caller .nil).natives, n.Detached := by
    intro n mem
    obtain rfl : n = .clock := Array.mem_singleton.1 mem
    exact detached_clock
  -- the top level has no parent, and what it binds is no cell
  have alone : ∀ c, (caller .nil).heap.Reachable [.frame ⟨0⟩, .frame ⟨0⟩] c → c = .frame ⟨0⟩ := by
    rintro c ⟨root, mem, path⟩
    induction path with
    | refl => simpa using mem
    | tail _ link ih =>
      subst ih
      cases link with
      | parent hp => cases hp
      | @bound _ name v _ hb cell =>
        have bound : ((Bindings.empty.put "clock" (.native ⟨0⟩)).put "n" .nil).get? name = some v := hb
        rw [Bindings.get?_put, Bindings.get?_put, Bindings.get?_empty] at bound
        split at bound
        · cases bound
          cases cell
        · split at bound
          · cases bound
            cases cell
          · cases bound
  have hidden : ¬(caller .nil).heap.Reachable [.frame ⟨0⟩, .frame ⟨0⟩] (.frame ⟨1⟩) :=
    fun reachable => nomatch alone _ reachable
  have made : (caller .nil).heap.Has (.frame ⟨1⟩) := Nat.one_lt_two
  constructor
  · have ends := @ends_of_outcome? ⟨.execute (.block body) .flow, (caller .nil).enter ⟨0⟩⟩
      (.flow (.returned (.bool true))) 15 (by decide +kernel)
    obtain ⟨same, apart⟩ :=
      ((execution_confined ((caller .nil).enter ⟨0⟩) detached).1 _ _ _ ends).frames ⟨1⟩ made hidden
    exact ⟨_, ends, same, apart⟩
  · have ends := @ends_of_outcome? ⟨call, caller .nil⟩ (.value (.bool true)) 16 (by decide +kernel)
    obtain ⟨here, elsewhere⟩ := (execution_confined (caller .nil) detached).2 ⟨0⟩ _ _ [] _ _ rfl ends
    obtain ⟨same, apart⟩ := here.frames ⟨1⟩ made hidden
    have agrees : (caller .nil).heap.Agrees ((caller .nil).heap.Reachable [.frame ⟨0⟩, .frame ⟨0⟩])
        (caller (.bool false)).heap := by
      refine ⟨rfl, rfl, rfl, rfl, fun f reached => ?_, fun _ reached => (nomatch alone _ reached),
        fun _ reached => (nomatch alone _ reached)⟩
      cases alone _ reached
      rfl
    obtain ⟨h', ends', agrees', spares⟩ := elsewhere _ agrees rfl
    have top := agrees'.frames ⟨0⟩ (.inl (Heap.reachable_root (.head _)))
    refine ⟨_, ends, same, apart, h', ends', spares.frames ⟨1⟩ ?_, ?_⟩
    · exact not_or.2 ⟨hidden, fun new => new made⟩
    · unfold Heap.get?
      rw [top]

end Lox
