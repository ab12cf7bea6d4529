/-
The faults that an evaluation can end with. Operators that suit their nodes are those that the
evaluator has a value for, so in code where all do, the two faults that say otherwise are never found
(`run_usual`): every failure has a cause in the program, and its message is none of theirs.
-/
import Lox.Proofs.Eval.Code
import Lox.Proofs.Grammar.Operators

namespace Lox

/-! ## Usual faults -/

/-- Can a program that is parsed be at fault in this way? Its operators are known, and natives have
faults of their own. -/
def Fault.Usual : Fault → Prop
  | .unknownPrefixOperator | .unknownInfixOperator | .native _ => False
  | _ => True

def RuntimeError.Usual : RuntimeError → Prop
  | .failure _ fault => fault.Usual
  | .stackOverflow _ | .output _ => True

/-- Texts that begin with different characters are different. -/
theorem append_ne {start more text : String} (begins : start.toList.head?.isSome)
    (differ : start.toList.head? ≠ text.toList.head?) : start ++ more ≠ text := by
  rintro rfl
  apply differ
  obtain ⟨c, hc⟩ := Option.isSome_iff_exists.1 begins
  rw [String.toList_append, List.head?_append, hc]
  rfl

/-- Of all messages only those of the two faults begin alike. -/
theorem Fault.message_usual {fault : Fault} (usual : fault.Usual) (lexeme : String) :
    fault.message lexeme ≠ "Invalid unary operator." ∧
      fault.message lexeme ≠ "Invalid binary operator." := by
  cases fault with
  | unknownPrefixOperator | unknownInfixOperator | native => cases usual
  | undefinedVariable | undefinedProperty | argumentCount =>
    dsimp only [message]
    simp only [String.append_assoc]
    exact ⟨append_ne (by decide +kernel) (by decide +kernel),
      append_ne (by decide +kernel) (by decide +kernel)⟩
  | _ =>
    dsimp only [message]
    exact ⟨by decide +kernel, by decide +kernel⟩

theorem RuntimeError.message_usual {e : RuntimeError} (usual : e.Usual) :
    e.message ≠ "Invalid unary operator." ∧ e.message ≠ "Invalid binary operator." := by
  cases e with
  | failure token fault => exact Fault.message_usual usual token.lexeme
  | stackOverflow token =>
    dsimp only [message]
    exact ⟨by decide +kernel, by decide +kernel⟩
  | output refusal => cases refusal <;> exact ⟨by decide +kernel, by decide +kernel⟩

/-- The native answers every call. -/
def Native.Reliable (n : Native) : Prop := ∀ call, ∃ v, n.act call = .ok v

theorem reliable_clock : Native.clock.Reliable := fun _ => ⟨_, rfl⟩

/-! ## Code with operators that suit -/

theorem Expr.apt_parts {e : Expr} (apt : e.Apt) : ∀ e' ∈ e.parts, e'.Apt := by
  cases e with
  | call callee paren args => exact List.forall_mem_cons.2 ⟨apt.1, Expr.allApt_iff.1 apt.2⟩
  | _ => simp_all [Expr.parts]

theorem Stmt.apt_expressions {s : Stmt} (apt : s.Apt) : ∀ e ∈ s.expressions, e.Apt := by
  cases s with
  | var name initializer => cases initializer <;> simp_all [Stmt.expressions]
  | «return» keyword value => cases value <;> simp_all [Stmt.expressions]
  | «if» condition thenBranch elseBranch => cases elseBranch <;> simp_all [Stmt.expressions]
  | _ => simp_all [Stmt.expressions]

theorem Stmt.apt_parts {s : Stmt} (apt : s.Apt) : ∀ s' ∈ s.parts, s'.Apt := by
  cases s with
  | block body => exact Stmt.allApt_iff.1 apt
  | «if» condition thenBranch elseBranch => cases elseBranch <;> simp_all [Stmt.parts]
  | _ => simp_all [Stmt.parts]

namespace Eval

/-- Code all of whose operators suit their nodes. -/
def apt : Dialect where
  expression := Expr.Apt
  statement _ s := s.Apt
  returning _ := True
  part := Expr.apt_parts
  own := Stmt.apt_expressions
  inner := Stmt.apt_parts
  body := fun hs _ _ => Stmt.allApt_iff.1 hs
  leave := fun _ => trivial

/-- A prefix operator finds fault with its operand only. -/
theorem usual_prefixValue {op : Kind} (suits : op = .bang ∨ op = .minus) {v : Value} {fault : Fault}
    (found : prefixValue op v = .error fault) : fault.Usual := by
  rcases suits with rfl | rfl
  · cases found
  · cases v <;> cases found <;> trivial

theorem usual_numeric {f : Float → Float → Value} {left right : Value} {fault : Fault}
    (found : numeric f left right = .error fault) : fault.Usual := by
  unfold numeric at found
  split at found
  · cases found
  · cases found
    trivial

/-- An infix operator finds fault with its operands only. -/
theorem usual_infixValue {op : Kind} (suits : op.isInfix = true) {left right : Value} {fault : Fault}
    (found : infixValue op left right = .error fault) : fault.Usual := by
  cases op with
  | plus => cases left <;> cases right <;> cases found <;> trivial
  | equalEqual | bangEqual => cases found
  | minus | star | slash | greater | greaterEqual | less | lessEqual => exact usual_numeric found
  | _ => cases suits

/-! ## Errors along a run -/

/-- If the evaluation ends with an error or is about to, the error is a usual one. -/
def Control.Usual : Control → Prop
  | .raise e _ => e.Usual
  | .ended (.fault e) => e.Usual
  | _ => True

variable {it : Interpreter}

/-- An error stays the same on its way out. -/
theorem Turn.usual {c c' : Control} (turn : Turn it c c') (usual : c.Usual) : c'.Usual := by
  cases turn with
  | yield | faultOfValue | faultOfFlow | ended => exact usual
  | _ => trivial

theorem Fail.usual {c : Control} {e : RuntimeError} {k : Cont .value} (fail : Fail it c e k)
    (code : c.In apt) : e.Usual := by
  cases fail with
  | operand op v fault k value =>
    obtain ⟨⟨right, suits⟩, -⟩ := code
    exact usual_prefixValue suits.1 value
  | operands op left v fault k value =>
    obtain ⟨⟨left', right, suits⟩, -⟩ := code
    exact usual_infixValue suits.2.1 value
  | _ => trivial

theorem Rule.usual {e e' : State} (rule : Rule e e') (code : e.In apt)
    (reliable : ∀ n ∈ e.it.natives, n.Reliable) (usual : e.control.Usual) : e'.control.Usual := by
  cases rule with
  | turn turn => exact turn.usual usual
  | fail fail => exact fail.usual code.control
  | nativeFault it n native paren args message k found arity answer =>
    obtain ⟨v, other⟩ := reliable native (Array.mem_of_getElem? found) ⟨it.heap, it.clock.reading, args⟩
    rw [answer] at other
    cases other
  | blockFault | callFault => exact usual
  | _ => trivial

/-- With reliable natives, code all of whose operators suit their nodes comes to usual errors only. -/
theorem run_usual {e : State} (code : e.In apt) (reliable : ∀ n ∈ e.it.natives, n.Reliable)
    (usual : e.control.Usual) (n : Nat) : (e.run n).control.Usual := by
  induction n with
  | zero => exact usual
  | succ n ih =>
    rw [← step_run]
    refine (step_rule _).usual (run_in code n) ?_ ih
    rwa [(run_keeps e n).natives]

end Eval

end Lox
