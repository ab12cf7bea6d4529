/-
What the host provides: a call limit and a sink. Nothing but the entry of a function looks at the
limit, and nothing but a print at the sink. So a step is the same step under a greater limit and with
another sink in place of the first, as long as a refused call stays refused and the other sink takes
what is printed as the first does (`step_hosted`).
-/
import Lox.Proofs.Eval.Calls

namespace Lox

/-- The interpreter with another call limit, and with another sink in place of its own. -/
def Interpreter.hosted (it : Interpreter) (limit : Nat) (redirect : Sink → Sink) : Interpreter :=
  { it with maxDepth := limit, sink := redirect it.sink }

/-- In place of the first sink, the other takes a text in the same way. -/
def Sink.TakesAs (redirect : Sink → Sink) (s : Sink) (text : String) : Prop :=
  (redirect s).print text = ((s.print text).1, redirect (s.print text).2)

namespace Eval

/-- The evaluation with another call limit, and with another sink in place of its own. -/
def State.hosted (e : State) (limit : Nat) (redirect : Sink → Sink) : State :=
  ⟨e.control, e.it.hosted limit redirect⟩

/-- The text that the next step prints. -/
def State.printing? (e : State) : Option String :=
  match e.control with
  | .give v (.printed _) => some (e.it.heap.text v ++ "\n")
  | _ => none

variable {it : Interpreter} {limit : Nat} {redirect : Sink → Sink}

theorem Turn.hosted {c c' : Control} (turn : Turn it c c') : Turn (it.hosted limit redirect) c c' :=
  turn.of_reads (fun _ _ _ _ => rfl) fun _ _ _ _ => rfl

/-- What is refused under the greater limit too is an error under both. -/
theorem Fail.hosted {c : Control} {e : RuntimeError} {k : Cont .value} (fail : Fail it c e k)
    (refused : ∀ paren, State.Overflows ⟨c, it⟩ paren → limit ≤ it.depth) :
    Fail (it.hosted limit redirect) c e k := by
  cases fail with
  | unread id name k none => exact .unread id name k none
  | unwritten id name v k none => exact .unwritten id name v k none
  | operand op v fault k value => exact .operand op v fault k value
  | operands op left v fault k value => exact .operands op left v fault k value
  | noProperty i name k none => exact .noProperty i name k none
  | noObject v name k other => exact .noObject v name k other
  | noTarget v name value k other => exact .noTarget v name value k other
  | uncallable callee paren args k none => exact .uncallable callee paren args k none
  | miscounted callee paren args n k takes other =>
    exact .miscounted callee paren args n k takes other
  | refused f c paren args k found arity full =>
    exact .refused f c paren args k found arity
      (refused paren ⟨k, f, c, args, rfl, found, arity, full⟩)

/-- What the sink answers to a text that is printed, and what becomes of it. -/
theorem print_hosted {v : Value}
    (taken : Sink.TakesAs redirect it.sink (it.heap.text v ++ "\n")) :
    ((it.hosted limit redirect).sink.print (it.heap.text v ++ "\n")).1 =
        (it.sink.print (it.heap.text v ++ "\n")).1 ∧
      withPrinted (it.hosted limit redirect) v = (withPrinted it v).hosted limit redirect :=
  ⟨congrArg (·.1) taken, congrArg (fun printed : _ × Sink =>
    { it.hosted limit redirect with sink := printed.2 }) taken⟩

/-- A function is entered under a greater limit too. -/
theorem Rule.hosted {e e' : State} (rule : Rule e e') (le : e.it.maxDepth ≤ limit)
    (refused : ∀ paren, e.Overflows paren → limit ≤ e.it.depth)
    (taken : ∀ text, e.printing? = some text → Sink.TakesAs redirect e.it.sink text) :
    Rule (e.hosted limit redirect) (e'.hosted limit redirect) := by
  cases rule with
  | turn turn => exact .turn turn.hosted
  | fail fail => exact .fail (fail.hosted refused)
  | «class» it name methods f k found => exact .class _ name methods f k found
  | lostClass it name methods k none => exact .lostClass _ name methods k none
  | write it id name f v k found => exact .write _ id name f v k found
  | call it f c paren args k found arity room =>
    exact .call _ f c paren args k found arity (Nat.lt_of_lt_of_le room le)
  | native it n native paren args v k found arity answer =>
    exact .native _ n native paren args v k found arity answer
  | nativeFault it n native paren args message k found arity answer =>
    exact .nativeFault _ n native paren args message k found arity answer
  | printed it v k accepted =>
    obtain ⟨answer, printed⟩ := @print_hosted it limit redirect v (taken _ rfl)
    rw [State.hosted, State.hosted, ← printed]
    exact .printed _ v k (answer.trans accepted)
  | unprinted it v refusal k refuses =>
    obtain ⟨answer, printed⟩ := @print_hosted it limit redirect v (taken _ rfl)
    rw [State.hosted, State.hosted, ← printed]
    exact .unprinted _ v refusal k (answer.trans refuses)
  | _ => constructor

/-- With a greater limit and another sink a step is the same step, if it does not refuse a call that
the greater limit allows, and prints nothing that the other sink takes otherwise. -/
theorem step_hosted {e : State} {limit : Nat} {redirect : Sink → Sink}
    (le : e.it.maxDepth ≤ limit) (refused : ∀ paren, e.Overflows paren → limit ≤ e.it.depth)
    (taken : ∀ text, e.printing? = some text → Sink.TakesAs redirect e.it.sink text) :
    (e.hosted limit redirect).step = e.step.hosted limit redirect :=
  ((step_rule e).hosted le refused taken).step_eq

/-! ## What a step does to the sink -/

/-- A step that prints a text goes on, or raises an error if the sink refuses the text. -/
theorem exists_step_print {e : State} {text : String} (printing : e.printing? = some text) :
    ∃ k, e.step = match e.it.sink.print text with
      | (.ok (), sink) => ⟨.finish .normal k, { e.it with sink }⟩
      | (.error refusal, sink) => ⟨.raise (.output refusal) k, { e.it with sink }⟩ := by
  obtain ⟨control, it⟩ := e
  unfold State.printing? at printing
  split at printing
  · rename_i v k same
    obtain rfl : control = .give v k.printed := same
    cases printing
    refine ⟨k, ?_⟩
    simp only [State.step, give, print]
    rcases it.sink.print (it.heap.text v ++ "\n") with ⟨⟨⟩, sink⟩ <;> rfl
  · cases printing

theorem sink_step_print {e : State} {text : String} (printing : e.printing? = some text) :
    e.step.it.sink = (e.it.sink.print text).2 := by
  obtain ⟨k, step⟩ := exists_step_print printing
  rw [step]
  rcases e.it.sink.print text with ⟨⟨⟩, sink⟩ <;> rfl

/-- A step that prints nothing leaves the sink as it is. -/
theorem sink_step_quiet {e : State} (quiet : e.printing? = none) : e.step.it.sink = e.it.sink := by
  -- the step is the same with whatever stands for the sink, so also with one that nothing changes
  have same : e.step = e.step.hosted e.it.maxDepth fun _ => e.it.sink := by
    refine @step_hosted e e.it.maxDepth (fun _ => e.it.sink) (Nat.le_refl _) ?_ ?_
    · rintro paren ⟨k, f, c, args, refused⟩
      exact refused.reached
    · intro text printing
      rw [quiet] at printing
      cases printing
  exact congrArg (·.it.sink) same

/-! ## How a program ends -/

/-- A program ends in the same way on another host, if its evaluation goes the same way. -/
theorem interpret_rehosted {it it' : Interpreter} {program : List Stmt} {fuel : Nat}
    {host : Interpreter → Interpreter} (flush : ∀ t, (host t).sink.flush = t.sink.flush)
    (h : State.run fuel ⟨.executeAll program .flow, it'⟩ =
      ⟨(State.run fuel ⟨.executeAll program .flow, it⟩).control,
        host (State.run fuel ⟨.executeAll program .flow, it⟩).it⟩) :
    it'.interpret fuel program = (it.interpret fuel program).map fun (r, t) => (r, host t) := by
  have concluded (t : Interpreter) (o : Outcome) : (host t).conclude o = t.conclude o := by
    unfold Interpreter.conclude
    rw [flush]
  unfold Interpreter.interpret Interpreter.runFor
  rw [h]
  generalize State.run fuel ⟨.executeAll program .flow, it⟩ = e
  obtain ⟨control, t⟩ := e
  cases control with
  | ended o => exact congrArg (fun r => some (r, host t)) (concluded t o)
  | _ => rfl

/-- A program that ends with an error fails with it. -/
theorem interpret_of_ends_fault {it it' : Interpreter} {program : List Stmt} {e : RuntimeError}
    (h : State.Ends ⟨.executeAll program .flow, it⟩ (.fault e) it') :
    ∃ fuel, it.interpret fuel program = some (.error e, it') := by
  obtain ⟨n, hn⟩ := h
  refine ⟨n, ?_⟩
  simp only [Interpreter.interpret, Interpreter.runFor, hn, State.outcome?, Option.map_some]
  rfl

end Eval

end Lox
