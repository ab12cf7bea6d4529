/-
The prefix form of trees: every node is a list behind its head, and names, operators and constants are
words. The text of a tree is the text of its form (`Expr.text_form`, `Stmt.text_form`).
-/
import Lox.Proofs.Syntax.Sexp
import Lox.Syntax.Text

namespace Lox

/-! ## Forms of trees -/

mutual

def Expr.form : Expr → Sexp
  | .assign _ name value => .list [.word "=", .word name.lexeme, value.form]
  | .binary left op right => .list [.word op.lexeme, left.form, right.form]
  | .call callee _ args => .list (.word "call" :: callee.form :: Expr.forms args)
  | .get object name => .list [.word ".", object.form, .word name.lexeme]
  | .group inner => .list [.word "group", inner.form]
  | .literal l => .word l.text
  | .logical left op right => .list [.word op.lexeme, left.form, right.form]
  | .set object name value =>
    .list [.word "=", .list [.word ".", object.form, .word name.lexeme], value.form]
  | .unary op right => .list [.word op.lexeme, right.form]
  | .variable _ name => .word name.lexeme

def Expr.forms : List Expr → List Sexp
  | [] => []
  | e :: es => e.form :: Expr.forms es

end

/-- The names as words. -/
def nameForms (names : List Token) : List Sexp := names.map fun name => .word name.lexeme

/-- Methods, of which only the names are written. -/
def methodForms (methods : List Function) : List Sexp :=
  methods.map fun m => .list [.word "method", .word m.name.lexeme]

mutual

def Stmt.form : Stmt → Sexp
  | .block body => .list (.word "block" :: Stmt.forms body)
  | .class name methods => .list (.word "class" :: .word name.lexeme :: methodForms methods)
  | .expression e => .list [.word ";", e.form]
  | .function ⟨name, params, body⟩ =>
    .list [.word "fun", .word name.lexeme, .list (nameForms params),
      .list (.word "block" :: Stmt.forms body)]
  | .if condition thenBranch none => .list [.word "if", condition.form, thenBranch.form]
  | .if condition thenBranch (some elseBranch) =>
    .list [.word "if", condition.form, thenBranch.form, elseBranch.form]
  | .print e => .list [.word "print", e.form]
  | .return _ none => .list [.word "return"]
  | .return _ (some value) => .list [.word "return", value.form]
  | .var name none => .list [.word "var", .word name.lexeme]
  | .var name (some value) => .list [.word "var", .word name.lexeme, value.form]
  | .while condition body => .list [.word "while", condition.form, body.form]

def Stmt.forms : List Stmt → List Sexp
  | [] => []
  | s :: ss => s.form :: Stmt.forms ss

end

mutual

theorem Expr.text_form : ∀ e : Expr, e.form.text = e.text
  | .assign _ _ value => by
    simp [← String.toList_inj, form, Expr.text, Sexp.text, Sexp.spaced, text_form value]
  | .binary left _ right | .logical left _ right => by
    simp [← String.toList_inj, form, Expr.text, Sexp.text, Sexp.spaced, text_form left,
      text_form right]
  | .call callee _ args => by
    simp [← String.toList_inj, form, Expr.text, Sexp.text, Sexp.spaced, text_form callee,
      spaced_forms args]
  | .get object _ => by
    simp [← String.toList_inj, form, Expr.text, Sexp.text, Sexp.spaced, text_form object]
  | .group inner => by
    simp [← String.toList_inj, form, Expr.text, Sexp.text, Sexp.spaced, text_form inner]
  | .literal _ => rfl
  | .set object _ value => by
    simp [← String.toList_inj, form, Expr.text, Sexp.text, Sexp.spaced, text_form object,
      text_form value]
  | .unary _ right => by
    simp [← String.toList_inj, form, Expr.text, Sexp.text, Sexp.spaced, text_form right]
  | .variable _ _ => rfl

theorem Expr.spaced_forms : ∀ es : List Expr, Sexp.spaced (Expr.forms es) = Expr.spaced es
  | [] => rfl
  | e :: es => by simp [forms, Expr.spaced, Sexp.spaced, text_form e, spaced_forms es]

end

theorem spaced_methodForms (methods : List Function) : Sexp.spaced (methodForms methods) =
    String.join (methods.map fun m => " (method " ++ m.name.lexeme ++ ")") := by
  induction methods with
  | nil => rfl
  | cons m ms ih =>
    have rest : methodForms (m :: ms) =
      .list [.word "method", .word m.name.lexeme] :: methodForms ms := rfl
    rw [rest, Sexp.spaced, ih]
    simp [← String.toList_inj, Sexp.text, Sexp.spaced]

theorem intercalate_names (name : Token) (names : List Token) :
    " ".intercalate ((name :: names).map (·.lexeme)) =
      name.lexeme ++ Sexp.spaced (nameForms names) := by
  induction names generalizing name with
  | nil => simp [nameForms, Sexp.spaced]
  | cons next names ih =>
    have rest : nameForms (next :: names) = .word next.lexeme :: nameForms names := rfl
    rw [List.map_cons, String.intercalate_cons_of_ne_nil (by simp), ih, rest, Sexp.spaced, Sexp.text]
    simp [String.append_assoc]

theorem text_nameForms (names : List Token) : (Sexp.list (nameForms names)).text =
    "(" ++ " ".intercalate (names.map (·.lexeme)) ++ ")" := by
  cases names with
  | nil => rfl
  | cons name names =>
    rw [intercalate_names]
    simp [nameForms, Sexp.text, String.append_assoc]

mutual

/-- The text of a tree is the text of its form. -/
theorem Stmt.text_form : ∀ s : Stmt, s.form.text = s.text
  | .block body => by
    simp [form, Stmt.text, Sexp.text, spaced_forms body]
  | .class _ methods => by
    simp [← String.toList_inj, form, Stmt.text, Sexp.text, Sexp.spaced, spaced_methodForms]
  | .expression e => by
    simp [← String.toList_inj, form, Stmt.text, Sexp.text, Sexp.spaced, e.text_form]
  | .function ⟨_, params, body⟩ => by
    simp [← String.toList_inj, form, Stmt.text, Sexp.text, Sexp.spaced, text_nameForms,
      spaced_forms body]
  | .if condition thenBranch none => by
    simp [← String.toList_inj, form, Stmt.text, Sexp.text, Sexp.spaced, condition.text_form,
      text_form thenBranch]
  | .if condition thenBranch (some elseBranch) => by
    simp [← String.toList_inj, form, Stmt.text, Sexp.text, Sexp.spaced, condition.text_form,
      text_form thenBranch, text_form elseBranch]
  | .print e => by
    simp [← String.toList_inj, form, Stmt.text, Sexp.text, Sexp.spaced, e.text_form]
  | .return _ none => rfl
  | .return _ (some value) => by
    simp [← String.toList_inj, form, Stmt.text, Sexp.text, Sexp.spaced, value.text_form]
  | .var _ none => by simp [← String.toList_inj, form, Stmt.text, Sexp.text, Sexp.spaced]
  | .var _ (some value) => by
    simp [← String.toList_inj, form, Stmt.text, Sexp.text, Sexp.spaced, value.text_form]
  | .while condition body => by
    simp [← String.toList_inj, form, Stmt.text, Sexp.text, Sexp.spaced, condition.text_form,
      text_form body]

theorem Stmt.spaced_forms : ∀ ss : List Stmt, Sexp.spaced (Stmt.forms ss) = Stmt.spaced ss
  | [] => rfl
  | s :: ss => by simp [forms, Stmt.spaced, Sexp.spaced, text_form s, spaced_forms ss]

end

end Lox
