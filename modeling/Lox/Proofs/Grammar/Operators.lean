/-
The operators in syntax trees. Every node that applies an operator is made for one sort of them:
prefix operators, infix operators whose sides are both evaluated, and `and` and `or`, whose left side
decides. In what the grammar derives each node has an operator of its sort, in functions and methods
as anywhere else (`apt_tree`), so the same holds for every program that is parsed.
-/
import Lox.Proofs.Grammar.Sound

namespace Lox

/-! ## Operators that suit their nodes -/

/-- Is it an operator that both sides are evaluated for? -/
def Kind.isInfix : Kind → Bool
  | .plus | .minus | .star | .slash => .true
  | .greater | .greaterEqual | .less | .lessEqual => .true
  | .equalEqual | .bangEqual => .true
  | _ => .false

mutual

/-- All operators of the expression suit the nodes they are in. -/
@[simp] def Expr.Apt : Expr → Prop
  | .literal _ => True
  | .variable _ _ => True
  | .group inner => inner.Apt
  | .unary op right => (op.kind = .bang ∨ op.kind = .minus) ∧ right.Apt
  | .binary left op right => left.Apt ∧ op.kind.isInfix = true ∧ right.Apt
  | .logical left op right => left.Apt ∧ (op.kind = .and ∨ op.kind = .or) ∧ right.Apt
  | .assign _ _ value => value.Apt
  | .call callee _ args => callee.Apt ∧ Expr.AllApt args
  | .get object _ => object.Apt
  | .set object _ value => object.Apt ∧ value.Apt

@[simp] def Expr.AllApt : List Expr → Prop
  | [] => True
  | e :: es => e.Apt ∧ Expr.AllApt es

end

/-- All operators of the expression, if there is one, suit their nodes. -/
@[simp] def Expr.Apt? : Option Expr → Prop
  | none => True
  | some e => e.Apt

mutual

/-- All operators of the statement suit the nodes they are in, those in functions and methods
included. -/
@[simp] def Stmt.Apt : Stmt → Prop
  | .block body => Stmt.AllApt body
  | .class _ methods => Stmt.MethodsApt methods
  | .expression e => e.Apt
  | .function ⟨_, _, body⟩ => Stmt.AllApt body
  | .if condition thenBranch none => condition.Apt ∧ thenBranch.Apt
  | .if condition thenBranch (some elseBranch) =>
    condition.Apt ∧ thenBranch.Apt ∧ elseBranch.Apt
  | .print e => e.Apt
  | .return _ value => Expr.Apt? value
  | .var _ initializer => Expr.Apt? initializer
  | .while condition body => condition.Apt ∧ body.Apt

@[simp] def Stmt.AllApt : List Stmt → Prop
  | [] => True
  | s :: ss => s.Apt ∧ Stmt.AllApt ss

@[simp] def Stmt.MethodsApt : List Function → Prop
  | [] => True
  | ⟨_, _, body⟩ :: fs => Stmt.AllApt body ∧ Stmt.MethodsApt fs

end

theorem Expr.allApt_iff {es : List Expr} : Expr.AllApt es ↔ ∀ e ∈ es, e.Apt := by
  induction es with
  | nil => simp
  | cons e es ih => rw [Expr.AllApt, ih, List.forall_mem_cons]

theorem Stmt.allApt_iff {ss : List Stmt} : Stmt.AllApt ss ↔ ∀ s ∈ ss, s.Apt := by
  induction ss with
  | nil => simp
  | cons s ss ih => rw [Stmt.AllApt, ih, List.forall_mem_cons]

/-! ## Operators of derivations -/

namespace Grammar

open Parse

/-- The operators in what a phrase derives suit their nodes. -/
@[simp] def Phrase.Apt : (p : Phrase) → p.Tree → Prop
  | expression _, e => Expr.Apt e
  | arguments, es => Expr.AllApt es
  | optional, e => Expr.Apt? e
  | initializer, none => True
  | initializer, some s => Stmt.Apt s
  | varDeclaration, s => Stmt.Apt s
  | expressionStatement, s => Stmt.Apt s
  | statement, s => Stmt.Apt s
  | declaration, s => Stmt.Apt s
  | declarations, ss => Stmt.AllApt ss
  | block, ss => Stmt.AllApt ss
  | function, f => Stmt.AllApt f.body
  | functions, fs => Stmt.MethodsApt fs

/-- The node of a level is made for the operators of the level. -/
theorem apt_join (l : Level) {left right : Expr} (hl : left.Apt) (op : Operator l) (hr : right.Apt) :
    (l.join left op right).Apt := by
  obtain ⟨⟨kind, lexeme, line⟩, admitted⟩ := op
  cases l with
  | or =>
    cases kind <;> first | exact ⟨hl, .inr rfl, hr⟩ | cases admitted
  | and =>
    cases kind <;> first | exact ⟨hl, .inl rfl, hr⟩ | cases admitted
  | _ =>
    refine ⟨hl, ?_, hr⟩
    cases kind <;> first | rfl | cases admitted

/-- A loop with three clauses has the operators of its parts. -/
theorem apt_forLoop {initializer : Option Stmt} {test step : Option Expr} {body : Stmt}
    (hi : Phrase.Apt .initializer initializer) (ht : Expr.Apt? test) (hs : Expr.Apt? step)
    (hb : body.Apt) : (Parse.forLoop initializer test step body).Apt := by
  cases initializer <;> cases test <;> cases step <;> simp_all [Parse.forLoop]

theorem apt_tree {p : Phrase} (d : Derivation p) (n : Nat) : p.Apt (d.tree n).1 := by
  induction d generalizing n with
  | prefixed op right ih => exact ⟨op.2, ih n⟩
  | binary l left op right hl hr => exact apt_join l (hl n) op (hr _)
  | forLoop keyword opening initializer test semicolon step closing body hi ht hs hb =>
    exact apt_forLoop (hi n) (ht _) (hs _) (hb _)
  | _ => simp_all

/-- In a program that is parsed, all operators suit their nodes. -/
theorem apt_of_program {tokens : List Token} {n : Nat} {ss : List Stmt}
    (parsed : (program n tokens).program = .ok ss) : Stmt.AllApt ss := by
  obtain ⟨d, -, -, -, tree⟩ := exists_derivation tokens n parsed
  have apt := apt_tree d n
  rw [tree] at apt
  exact apt

end Grammar

end Lox
