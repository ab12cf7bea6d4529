/-
Recoded code runs as the code it was made of: a step of a recoded evaluation is the recoded step
(`step_recode`), provided that the two tables agree on the reference that is read or written, if
there is one. So lines show in errors only, and no more of the table shows than what is looked up.
-/
import Lox.Proofs.Eval.Steps
import Lox.Proofs.Heap.Frames
import Lox.Proofs.Syntax.Recode

namespace Lox

/-! ## Recoded states -/

/-- The error with its token recoded. -/
@[simp] def RuntimeError.recode (r : Recoding) : RuntimeError → RuntimeError
  | failure token fault => failure (r.token token) fault
  | stackOverflow token => stackOverflow (r.token token)
  | output refusal => output refusal

/-- The function with its code recoded. -/
def Closure.recode (r : Recoding) (c : Closure) : Closure := ⟨c.decl.recode r, c.frame⟩

/-- The heap with the code of its functions recoded. -/
def Heap.recode (r : Recoding) (h : Heap) : Heap :=
  { h with functions := h.functions.map (Closure.recode r) }

/-- The interpreter with the code of its functions recoded and with another table. -/
def Interpreter.recode (r : Recoding) (T : Distances) (it : Interpreter) : Interpreter :=
  { it with heap := it.heap.recode r, distances := T }

namespace Eval

section

variable (r : Recoding)

@[simp] def Outcome.recode : Outcome → Outcome
  | .value v => .value v
  | .flow f => .flow f
  | .fault e => .fault (e.recode r)

/-- What waits, with its code recoded. -/
@[simp] def Cont.recode : {a : Answer} → Cont a → Cont a
  | _, .value => .value
  | _, .flow => .flow
  | _, .operand op k => .operand (r.token op) k.recode
  | _, .leftOperand op right k => .leftOperand (r.token op) (right.recode r) k.recode
  | _, .rightOperand op left k => .rightOperand (r.token op) left k.recode
  | _, .decision op right k => .decision (r.token op) (right.recode r) k.recode
  | _, .assigned id name k => .assigned (r.ids id) (r.token name) k.recode
  | _, .callee paren args k => .callee (r.token paren) (Expr.recodeAll r args) k.recode
  | _, .argument f paren done rest k =>
    .argument f (r.token paren) done (Expr.recodeAll r rest) k.recode
  | _, .getObject name k => .getObject (r.token name) k.recode
  | _, .setObject name e k => .setObject (r.token name) (e.recode r) k.recode
  | _, .setValue target name k => .setValue target (r.token name) k.recode
  | _, .discarded k => .discarded k.recode
  | _, .printed k => .printed k.recode
  | _, .initializer name k => .initializer (r.token name) k.recode
  | _, .returned k => .returned k.recode
  | _, .ifTest thenBranch elseBranch k =>
    .ifTest (thenBranch.recode r) (elseBranch.map (Stmt.recode r)) k.recode
  | _, .whileTest condition body k => .whileTest (condition.recode r) (body.recode r) k.recode
  | _, .whileBody condition body k => .whileBody (condition.recode r) (body.recode r) k.recode
  | _, .sequence rest k => .sequence (Stmt.recodeAll r rest) k.recode
  | _, .blockEnd frame k => .blockEnd frame k.recode
  | _, .callEnd frame k => .callEnd frame k.recode

@[simp] def Control.recode : Control → Control
  | .evaluate e k => .evaluate (e.recode r) (k.recode r)
  | .execute s k => .execute (s.recode r) (k.recode r)
  | .executeAll ss k => .executeAll (Stmt.recodeAll r ss) (k.recode r)
  | .call callee paren args k => .call callee (r.token paren) args (k.recode r)
  | .give v k => .give v (k.recode r)
  | .finish f k => .finish f (k.recode r)
  | .raise e k => .raise (e.recode r) (k.recode r)
  | .ended o => .ended (o.recode r)

/-- The evaluation with all code recoded and with another table. -/
def State.recode (T : Distances) (e : State) : State := ⟨e.control.recode r, e.it.recode r T⟩

end

end Eval

/-! ## What stays the same -/

namespace Heap

variable (r : Recoding) (h : Heap)

@[simp] theorem get?_recode (f : FrameRef) (name : String) :
    (h.recode r).get? f name = h.get? f name := rfl

@[simp] theorem newFunction_recode (c : Closure) :
    (h.recode r).newFunction (c.recode r) =
      ((h.newFunction c).1, (h.newFunction c).2.recode r) := by
  simp [newFunction, recode]

@[simp] theorem function?_recode (f : FunctionRef) :
    (h.recode r).function? f = (h.function? f).map (Closure.recode r) :=
  Array.getElem?_map ..

@[simp] theorem owner?_recode (f : FrameRef) (name : String) :
    (h.recode r).owner? f name = h.owner? f name :=
  @owner?_congr (h.recode r) h rfl f name

@[simp] theorem ownerAt?_recode (f : FrameRef) (d : Nat) (name : String) :
    (h.recode r).ownerAt? f d name = h.ownerAt? f d name := by
  have same : (h.recode r).ancestor? f d = h.ancestor? f d :=
    @ancestor?_congr (h.recode r) h rfl f d
  rw [ownerAt?, same, ownerAt?]
  rfl

theorem recode_recode {r r' r'' : Recoding} (hi : ∀ i, r'.ids (r.ids i) = r''.ids i)
    (ht : ∀ t, r'.token (r.token t) = r''.token t) (h : Heap) :
    (h.recode r).recode r' = h.recode r'' := by
  have code : ∀ c : Closure, (c.recode r).recode r' = c.recode r'' := fun c => by
    simp [Closure.recode, FunctionOf.recode, ht, Stmt.recodeAll_recodeAll hi ht]
  simp [recode, code]

/-- Only the ids in functions matter. -/
theorem recode_congr {r r' : Recoding} (tokens : r.token = r'.token) {h : Heap}
    (agree : ∀ c ∈ h.functions, ∀ i ∈ Stmt.idsAll c.decl.body, r.ids i = r'.ids i) :
    h.recode r = h.recode r' := by
  have code : ∀ c ∈ h.functions, c.recode r = c.recode r' := fun c hc => by
    rw [Closure.recode, FunctionOf.recode, Stmt.recodeAll_congr tokens _ (agree c hc), tokens]
    rfl
  rw [recode, Array.map_congr_left code, recode]

/-- A function is printed by its name, which stays the same. -/
@[simp] theorem text_recode (v : Value) : (h.recode r).text v = h.text v := by
  cases v with
  | function f =>
    have name : (h.recode r).functionName f = h.functionName f := by
      rw [functionName, function?_recode, functionName]
      cases h.function? f with
      | none => rfl
      | some c => exact r.lexeme_token c.decl.name
    rw [text, name, text]
  | bool b => cases b <;> rfl
  | _ => rfl

end Heap

/-- A reference means the same frame if both tables say the same of it. -/
theorem Interpreter.referred?_recode {it : Interpreter} {r : Recoding} {T : Distances} {id : Nat}
    (same : T[r.ids id]? = it.distances[id]?) (name : String) :
    (it.recode r T).referred? (r.ids id) name = it.referred? id name := by
  have distances : (it.recode r T).distances = T := rfl
  rw [referred?, distances, same, referred?]
  cases it.distances[id]? with
  | some d => exact Heap.ownerAt?_recode r it.heap it.frame d name
  | none => exact Heap.owner?_recode r it.heap it.globals name

/-- The native does not look at the heap. -/
def Native.Blind (n : Native) : Prop :=
  ∀ h h' reading args, n.act ⟨h, reading, args⟩ = n.act ⟨h', reading, args⟩

theorem blind_clock : Native.clock.Blind := fun _ _ _ _ => rfl

/-- The native does not look at what is recoded: at ids and lines, and into classes. -/
def Native.Overlooks (r : Recoding) (n : Native) : Prop :=
  ∀ h reading args, n.act ⟨h.recode r, reading, args⟩ = n.act ⟨h, reading, args⟩

theorem Native.Blind.overlooks {n : Native} (blind : n.Blind) (r : Recoding) : n.Overlooks r :=
  fun _ _ _ => blind ..

/-! ## Recoded steps -/

namespace Eval

variable {r : Recoding} {T : Distances} {it : Interpreter}

theorem Cont.Yields.recode {a b : Answer} {k : Cont a} {k' : Cont b} (yields : k.Yields k')
    (r : Recoding) : (k.recode r).Yields (k'.recode r) := by
  cases yields <;> constructor

theorem read_recode {id : Nat} (same : T[r.ids id]? = it.distances[id]?) (name : Token) :
    ((it.recode r T).referred? (r.ids id) (r.token name).lexeme).bind
        ((it.recode r T).heap.get? · (r.token name).lexeme) =
      (it.referred? id name.lexeme).bind (it.heap.get? · name.lexeme) := by
  rw [r.lexeme_token, Interpreter.referred?_recode same]
  rfl

theorem field?_recode (i : InstanceRef) (name : Token) :
    (it.recode r T).heap.field? i (r.token name).lexeme = it.heap.field? i name.lexeme := by
  rw [r.lexeme_token]
  rfl

/-- Recoded code has the same operators and names, so it turns to the same, recoded. -/
theorem Turn.recode {c c' : Control} (turn : Turn it c c')
    (same : ∀ ref, c.reference? = some ref → T[r.ids ref.id]? = it.distances[ref.id]?) :
    Turn (it.recode r T) (c.recode r) (c'.recode r) := by
  cases turn with
  | read id name v k found =>
    exact .read _ _ v _ ((read_recode (same _ rfl) name).trans found)
  | operated op v w k value =>
    rw [← r.kind_token] at value
    exact .operated _ v w _ value
  | combined op left v w k value =>
    rw [← r.kind_token] at value
    exact .combined _ left v w _ value
  | decided op right v k decided =>
    rw [← r.kind_token] at decided
    exact .decided _ _ v _ decided
  | undecided op right v k undecided =>
    rw [← r.kind_token] at undecided
    exact .undecided _ _ v _ undecided
  | property i name w k found => exact .property i _ w _ ((field?_recode i name).trans found)
  | thenBranch v thenBranch elseBranch k holds => exact .thenBranch v _ _ _ holds
  | elseBranch v thenBranch elseBranch k fails => exact .elseBranch v _ _ _ fails
  | noBranch v thenBranch k fails => exact .noBranch v _ _ fails
  | body v condition body k holds => exact .body v _ _ _ holds
  | loopEnd v condition body k fails => exact .loopEnd v _ _ _ fails
  | test condition thenBranch elseBranch k =>
    show Turn _ (.execute ((Stmt.if condition thenBranch elseBranch).recode r) _) _
    rw [Stmt.recode_if]
    exact .test ..
  | yield e k k' yields => exact .yield _ _ _ (yields.recode r)
  | _ => constructor

theorem arity?_recode (v : Value) : arity? (it.recode r T) v = arity? it v := by
  cases v with
  | function f =>
    have found : (it.recode r T).heap.function? f = (it.heap.function? f).map (Closure.recode r) :=
      Heap.function?_recode r it.heap f
    rw [arity?, found, Option.map_map, arity?]
    congr 1
    funext c
    exact List.length_map ..
  | _ => rfl

theorem function?_recode {f : FunctionRef} {c : Closure} (found : it.heap.function? f = some c) :
    (it.recode r T).heap.function? f = some (c.recode r) :=
  (Heap.function?_recode r it.heap f).trans (by rw [found]; rfl)

theorem Fail.recode {c : Control} {e : RuntimeError} {k : Cont .value} (fail : Fail it c e k)
    (same : ∀ ref, c.reference? = some ref → T[r.ids ref.id]? = it.distances[ref.id]?) :
    Fail (it.recode r T) (c.recode r) (e.recode r) (k.recode r) := by
  cases fail with
  | unread id name k none => exact .unread _ _ _ ((read_recode (same _ rfl) name).trans none)
  | unwritten id name v k none =>
    refine .unwritten _ _ v _ ?_
    rw [r.lexeme_token, Interpreter.referred?_recode (same _ rfl), none]
  | operand op v fault k value =>
    rw [← r.kind_token] at value
    exact .operand _ v fault _ value
  | operands op left v fault k value =>
    rw [← r.kind_token] at value
    exact .operands _ left v fault _ value
  | noProperty i name k none => exact .noProperty i _ _ ((field?_recode i name).trans none)
  | noObject v name k other => exact .noObject v _ _ other
  | noTarget v name value k other => exact .noTarget v _ _ _ other
  | uncallable callee paren args k none =>
    exact .uncallable callee _ args _ ((arity?_recode callee).trans none)
  | miscounted callee paren args n k takes other =>
    exact .miscounted callee _ args n _ ((arity?_recode callee).trans takes) other
  | refused f c paren args k found arity full =>
    exact .refused f _ _ args _ (function?_recode found) (arity.trans (List.length_map ..).symm) full

theorem parameterBindings_recode (params : List Token) (args : List Value) :
    parameterBindings (params.map r.token) args = parameterBindings params args := by
  have fold : ∀ b : Bindings Value,
      ((params.map r.token).zip args).foldl (fun b pair => b.put pair.1.lexeme pair.2) b =
        (params.zip args).foldl (fun b pair => b.put pair.1.lexeme pair.2) b := by
    -- token by token, since only the lexeme is bound
    induction params generalizing args with
    | nil => exact fun _ => rfl
    | cons param params ih => cases args with
      | nil => exact fun _ => rfl
      | cons arg args =>
        intro b
        simp only [List.map_cons, List.zip_cons_cons, List.foldl_cons, Recoding.lexeme_token]
        exact ih args _
  exact fold .empty

theorem entered_recode (c : Closure) (args : List Value) :
    entered (it.recode r T) (c.recode r) args = (entered it c args).recode r T := by
  have bindings : parameterBindings (c.recode r).decl.params args =
      parameterBindings c.decl.params args := parameterBindings_recode c.decl.params args
  rw [entered, bindings]
  rfl

theorem declareFunction_recode (decl : Function) (k : Cont .flow) :
    declareFunction (it.recode r T) (decl.recode r) (k.recode r) =
      (declareFunction it decl k).recode r T := by
  have made := Heap.newFunction_recode r it.heap ⟨decl, it.frame⟩
  unfold declareFunction
  rw [show (⟨decl.recode r, (it.recode r T).frame⟩ : Closure) = Closure.recode r ⟨decl, it.frame⟩
    from rfl, show (it.recode r T).heap = it.heap.recode r from rfl, made]
  simp only [FunctionOf.recode, Recoding.lexeme_token]
  rfl

theorem withPrinted_recode (v : Value) :
    withPrinted (it.recode r T) v = (withPrinted it v).recode r T := by
  have text : (it.recode r T).heap.text v = it.heap.text v := Heap.text_recode r it.heap v
  rw [withPrinted, text]
  rfl

theorem Rule.recode {e e' : State} (rule : Rule e e')
    (overlooks : ∀ n ∈ e.it.natives, n.Overlooks r)
    (same : ∀ ref, e.control.reference? = some ref → T[r.ids ref.id]? = e.it.distances[ref.id]?) :
    Rule (e.recode r T) (e'.recode r T) := by
  cases rule with
  | turn turn => exact .turn (turn.recode same)
  | fail fail => exact .fail (fail.recode same)
  | varNil it name k =>
    have rule := Rule.varNil (it.recode r T) (r.token name) (k.recode r)
    rw [r.lexeme_token] at rule
    exact rule
  | var it name v k =>
    have rule := Rule.var (it.recode r T) (r.token name) v (k.recode r)
    rw [r.lexeme_token] at rule
    exact rule
  | function it decl k =>
    have rule := Rule.function (it.recode r T) (decl.recode r) (k.recode r)
    rw [declareFunction_recode, ← Stmt.recode_function] at rule
    exact rule
  | «class» it name methods f k found =>
    have found' := (Heap.owner?_recode r (withClass it name.lexeme).heap it.frame _).trans found
    rw [← r.lexeme_token name] at found'
    have rule := Rule.class (it.recode r T) (r.token name) [] f (k.recode r) found'
    rw [r.lexeme_token] at rule
    exact rule
  | lostClass it name methods k none =>
    have none' := (Heap.owner?_recode r (withClass it name.lexeme).heap it.frame _).trans none
    rw [← r.lexeme_token name] at none'
    have rule := Rule.lostClass (it.recode r T) (r.token name) [] (k.recode r) none'
    rw [r.lexeme_token] at rule
    exact rule
  | write it id name f v k found =>
    rw [← Interpreter.referred?_recode (same _ rfl), ← r.lexeme_token] at found
    have rule := Rule.write (it.recode r T) (r.ids id) (r.token name) f v (k.recode r) found
    rw [r.lexeme_token] at rule
    exact rule
  | setField it i name v k =>
    have rule := Rule.setField (it.recode r T) i (r.token name) v (k.recode r)
    rw [r.lexeme_token] at rule
    exact rule
  | call it f c paren args k found arity room =>
    have rule := Rule.call (it.recode r T) f (c.recode r) (r.token paren) args (k.recode r)
      (function?_recode found) (arity.trans (List.length_map ..).symm) room
    rw [entered_recode] at rule
    exact rule
  | native it n native paren args v k found arity answer =>
    have blind := overlooks native (Array.mem_of_getElem? found) it.heap it.clock.reading args
    exact .native _ n native _ args v _ found arity (blind.trans answer)
  | nativeFault it n native paren args message k found arity answer =>
    have blind := overlooks native (Array.mem_of_getElem? found) it.heap it.clock.reading args
    exact .nativeFault _ n native _ args message _ found arity (blind.trans answer)
  | printed it v k accepted =>
    rw [← Heap.text_recode r] at accepted
    have rule := Rule.printed (it.recode r T) v (k.recode r) accepted
    rw [withPrinted_recode] at rule
    exact rule
  | unprinted it v refusal k refused =>
    rw [← Heap.text_recode r] at refused
    have rule := Rule.unprinted (it.recode r T) v refusal (k.recode r) refused
    rw [withPrinted_recode] at rule
    exact rule
  | _ => constructor

/-- A step of recoded code is the recoded step, if both tables say the same of what is looked up. -/
theorem step_recode {e : State} (overlooks : ∀ n ∈ e.it.natives, n.Overlooks r)
    (same : ∀ ref, e.control.reference? = some ref →
      T[r.ids ref.id]? = e.it.distances[ref.id]?) :
    (e.recode r T).step = e.step.recode r T :=
  ((step_rule e).recode overlooks same).step_eq

/-- A run of recoded code is the recoded run, if both tables say the same wherever it gets to. -/
theorem run_recode {e : State} (overlooks : ∀ n ∈ e.it.natives, n.Overlooks r) (n : Nat)
    (same : ∀ m < n, ∀ ref, (e.run m).control.reference? = some ref →
      T[r.ids ref.id]? = (e.run m).it.distances[ref.id]?) :
    (e.recode r T).run n = (e.run n).recode r T := by
  induction n generalizing e with
  | zero => rfl
  | succ n ih =>
    have first := step_recode overlooks (same 0 (Nat.zero_lt_succ n))
    have overlooks' : ∀ native ∈ e.step.it.natives, native.Overlooks r := by
      rw [(step_keeps e).natives]
      exact overlooks
    rw [run_succ, first, run_succ]
    -- the references of the rest are those of the run, one step later
    refine ih overlooks' fun m hm ref href => ?_
    rw [← run_succ] at href ⊢
    exact same (m + 1) (Nat.succ_lt_succ hm) ref href

/-- Evaluations that are the same once they are recoded, up to the table, stay so, if their tables
say the same wherever the first gets to. -/
theorem run_recode_eq {r' : Recoding} (plain : ∀ i, r'.ids i = i) {e e' : State}
    (same : e.recode r T = e'.recode r' T) (blind : ∀ n ∈ e.it.natives, n.Blind) (n : Nat)
    (known : ∀ m < n, ∀ ref, (e.run m).control.reference? = some ref →
      e'.it.distances[r.ids ref.id]? = e.it.distances[ref.id]?) :
    (e.run n).recode r T = (e'.run n).recode r' T := by
  have retable : ∀ {e e' : State} {T : Distances} (T' : Distances), e.recode r T = e'.recode r' T →
      e.recode r T' = e'.recode r' T' := fun T' h =>
    congrArg (fun e => { e with it := { e.it with distances := T' } }) h
  have natives : e.it.natives = e'.it.natives := congrArg (·.it.natives) same
  have overlooks : ∀ n ∈ e.it.natives, n.Overlooks r := fun n hn => (blind n hn).overlooks r
  have overlooks' : ∀ n ∈ e'.it.natives, n.Overlooks r' := fun n hn =>
    (blind n (natives ▸ hn)).overlooks r'
  -- both are run with the table of the second, which the first need not have
  have left := @run_recode r e'.it.distances e overlooks n fun m hm ref next => by
    rw [(run_keeps e m).distances]
    exact known m hm ref next
  have right := @run_recode r' e'.it.distances e' overlooks' n fun m _ ref _ => by
    rw [(run_keeps e' m).distances, plain]
  refine retable T (T := e'.it.distances) ?_
  rw [← left, ← right, retable e'.it.distances same]

end Eval

end Lox
