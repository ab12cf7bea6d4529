/-
What the trees of the grammar have in common. No declaration stands in them where the grammar has a
statement (`straight_tree`), and their references have different ids, drawn one after another from
where the parser started to count (`fresh_tree`).
-/
import Lox.Proofs.Grammar.Derivation
import Lox.Proofs.Scoping.Ids

namespace Lox

namespace Grammar

open Parse

/-- The ids in what a phrase derives, those in methods included. -/
@[simp] def Phrase.everyId : (p : Phrase) → p.Tree → List Nat
  | expression _, e => Expr.ids e
  | arguments, es => (Expr.referencesAll es).map (·.id)
  | optional, none => []
  | optional, some e => Expr.ids e
  | initializer, none => []
  | initializer, some s => Stmt.everyId s
  | varDeclaration, s => Stmt.everyId s
  | expressionStatement, s => Stmt.everyId s
  | statement, s => Stmt.everyId s
  | declaration, s => Stmt.everyId s
  | declarations, ss => Stmt.everyIdAll ss
  | block, ss => Stmt.everyIdAll ss
  | function, f => Stmt.everyIdAll f.body
  | functions, fs => Stmt.everyIdMethods fs

theorem ids_join (l : Level) (left : Expr) (op : Token) (right : Expr) :
    (l.join left op right).ids = left.ids ++ right.ids := by
  cases l <;> simp [Level.join, Expr.ids, Expr.references]

/-- The step of a loop stands behind the body. -/
theorem everyId_forLoop (initializer : Option Stmt) (test step : Option Expr) (body : Stmt) :
    (Parse.forLoop initializer test step body).everyId =
      Phrase.everyId .initializer initializer ++ (Phrase.everyId .optional test ++
        (body.everyId ++ Phrase.everyId .optional step)) := by
  cases initializer <;> cases test <;> cases step <;>
    simp [Parse.forLoop, Expr.ids, Expr.references]

/-- The references of a tree have different ids, from those that the parser draws for it. -/
theorem fresh_everyId {p : Phrase} (d : Derivation p) (n : Nat) :
    FreshIds n (d.tree n).2 (p.everyId (d.tree n).1) := by
  induction d generalizing n with
  | literal t l h | absent | noInitializer semicolon | noDeclarations | noFunctions
  | uninitialized keyword name semicolon =>
    exact .none (Nat.le_refl n)
  | identifier name => exact .single n
  | group opening inner closing ih | callOfPrimary e ih | get object dot name ih
  | unaryOfCall e ih | prefixed op right ih | binaryOfOperand l e ih | assignmentOfOr e ih
  | present e ih | initialized keyword name equals value semicolon ih
  | expressionStatement e semicolon ih | variableInitializer v ih | expressionInitializer e ih
  | statementOfExpression e ih | print keyword e semicolon ih | statementOfBlock b ih
  | block opening body closing ih | declarationOfStatement s ih | declarationOfVariable v ih
  | functionDeclaration keyword f ih | function name opening params closing body ih
  | classDeclaration keyword name opening methods closing ih =>
    exact ih n
  | callNone callee opening closing ih =>
    simpa [Expr.ids, Expr.references, Expr.referencesAll] using ih n
  | callSome callee opening args closing hf ha =>
    simpa [Expr.ids, Expr.references] using (hf n).append (ha _)
  | binary l left op right hl hr =>
    simp only [Derivation.tree, Phrase.everyId, ids_join]
    exact (hl n).append (hr _)
  | assign name equals value ih =>
    -- the name was read as a variable first, so the id that it got then is not used
    have skipped : FreshIds n (n + 1) [] := .none (Nat.le_succ n)
    simpa [Expr.ids, Expr.references] using (skipped.append (ih (n + 1))).append (.single _)
  | set object dot name equals value ho hv =>
    -- the walk meets the value first, but the parser drew the ids of the object first
    have both := (ho n).append (hv _)
    simpa [Expr.ids, Expr.references] using both.perm List.perm_append_comm
  | lastArgument e ih => simpa [Expr.ids, Expr.referencesAll] using ih n
  | argument e comma others he ho =>
    simpa [Expr.ids, Expr.referencesAll] using (he n).append (ho _)
  | forLoop keyword opening initializer test semicolon step closing body hi ht hs hb =>
    -- the step is read in front of the body, but is met behind it
    have all := (hi n).append ((ht _).append ((hs _).append (hb _)))
    simp only [Derivation.tree, Phrase.everyId, everyId_forLoop]
    exact all.perm (.append_left _ (.append_left _ List.perm_append_comm))
  | ifThen keyword opening test closing thenBranch hc ht => exact (hc n).append (ht _)
  | ifElse keyword opening test closing thenBranch otherwise elseBranch hc ht he =>
    exact ((hc n).append (ht _)).append (he _)
  | «return» keyword value semicolon ih =>
    cases value with
    | absent => exact .none (Nat.le_refl n)
    | present e => exact ih n
  | «while» keyword opening test closing body hc hb => exact (hc n).append (hb _)
  | declarations first others hf ho | functions first others hf ho => exact (hf n).append (ho _)

/-- The ids in what a phrase derives. Methods are not entered by the walk. -/
@[simp] def Phrase.ids : (p : Phrase) → p.Tree → List Nat
  | expression _, e => Expr.ids e
  | arguments, es => (Expr.referencesAll es).map (·.id)
  | optional, none => []
  | optional, some e => Expr.ids e
  | initializer, none => []
  | initializer, some s => Stmt.ids s
  | varDeclaration, s => Stmt.ids s
  | expressionStatement, s => Stmt.ids s
  | statement, s => Stmt.ids s
  | declaration, s => Stmt.ids s
  | declarations, ss => Stmt.idsAll ss
  | block, ss => Stmt.idsAll ss
  | function, f => Stmt.idsAll f.body
  | functions, _ => []

theorem fresh_tree {p : Phrase} (d : Derivation p) (n : Nat) :
    FreshIds n (d.tree n).2 (p.ids (d.tree n).1) := by
  refine (fresh_everyId d n).sublist ?_
  generalize (d.tree n).1 = t
  cases p with
  | initializer =>
    cases t with
    | none => exact .refl _
    | some s => exact s.ids_sublist
  | varDeclaration | expressionStatement | statement | declaration => exact Stmt.ids_sublist t
  | declarations | block => exact Stmt.ids_sublist_all t
  | function => exact Stmt.ids_sublist_all t.body
  | functions => exact List.nil_sublist _
  | optional => cases t <;> exact .refl _
  | expression | arguments => exact .refl _

/-! ## No declaration for a statement -/

/-- What a phrase derives has no declaration where a statement is due. -/
@[simp] def Phrase.Straight : (p : Phrase) → p.Tree → Prop
  | initializer, s => ∀ s', s = some s' → Stmt.Straight s'
  | expressionStatement, s => Stmt.declares s = [] ∧ Stmt.Straight s
  | statement, s => Stmt.declares s = [] ∧ Stmt.Straight s
  | varDeclaration, s => Stmt.Straight s
  | declaration, s => Stmt.Straight s
  | declarations, ss => Stmt.AllStraight ss
  | block, ss => Stmt.AllStraight ss
  | function, f => Stmt.AllStraight f.body
  | _, _ => True

theorem straight_tree {p : Phrase} (d : Derivation p) (n : Nat) : p.Straight (d.tree n).1 := by
  induction d generalizing n with
  | forLoop keyword opening initializer test semicolon step closing body hi ht hs hb =>
    cases initializer <;> cases test <;> cases step <;> simp_all [Parse.forLoop, Stmt.declares]
  | _ => simp_all [Stmt.declares]

end Grammar

end Lox
