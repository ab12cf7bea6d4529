/-
Reading prefix forms. Read with the scanner, one word at a time, a form gives back its tree but for ids
and lines (`Expr.expr?_form`, `Stmt.stmt?_form`), if operators suit their nodes, all tokens are lexemes,
and the tree is `Faithful`: nothing in it is left out of the form or written as something else is. Nodes
are told apart by their heads and the number of parts behind them, operators from other heads by what
the scanner makes of them. The words of such a form are proper, so the form can be read off its text
(`Stmt.proper_form`).
-/
import Lox.Proofs.Grammar.Spelled
import Lox.Proofs.Grammar.Unparse
import Lox.Proofs.Number.Text
import Lox.Proofs.Syntax.Form
import Lox.Proofs.Syntax.Recode

namespace Lox

/-! ## Faithful trees -/

/-- Strings are written without their quotes, and infinity is written as a name may be. -/
@[simp] def Literal.Faithful : Literal → Prop
  | .string _ => False
  | .number x => x.isInf = false
  | _ => True

mutual

/-- There is no string in the expression and no infinite number. -/
@[simp] def Expr.Faithful : Expr → Prop
  | .literal l => l.Faithful
  | .variable _ _ => True
  | .group inner => inner.Faithful
  | .unary _ right => right.Faithful
  | .binary left _ right | .logical left _ right => left.Faithful ∧ right.Faithful
  | .assign _ _ value => value.Faithful
  | .call callee _ args => callee.Faithful ∧ Expr.AllFaithful args
  | .get object _ => object.Faithful
  | .set object _ value => object.Faithful ∧ value.Faithful

@[simp] def Expr.AllFaithful : List Expr → Prop
  | [] => True
  | e :: es => e.Faithful ∧ Expr.AllFaithful es

end

mutual

/-- There is no string in the statement, no infinite number, and no class with methods, of which only
the names are written. -/
@[simp] def Stmt.Faithful : Stmt → Prop
  | .block body => Stmt.AllFaithful body
  | .class _ methods => methods = []
  | .expression e | .print e => e.Faithful
  | .function ⟨_, _, body⟩ => Stmt.AllFaithful body
  | .if condition thenBranch none => condition.Faithful ∧ thenBranch.Faithful
  | .if condition thenBranch (some elseBranch) =>
    condition.Faithful ∧ thenBranch.Faithful ∧ elseBranch.Faithful
  | .return _ none | .var _ none => True
  | .return _ (some value) | .var _ (some value) => value.Faithful
  | .while condition body => condition.Faithful ∧ body.Faithful

@[simp] def Stmt.AllFaithful : List Stmt → Prop
  | [] => True
  | s :: ss => s.Faithful ∧ Stmt.AllFaithful ss

end

/-! ## Words -/

/-- The kinds whose lexemes are words of a form. -/
def Kind.isWord : Kind → Bool
  | .leftParen | .rightParen | .string _ => .false
  | _ => .true

theorem isMark_of_isWordChar {c : Char} (word : isWordChar c) : Sexp.isMark c = false := by
  rw [← Bool.not_eq_true]
  intro mark
  simp only [Sexp.isMark, Bool.or_eq_true, beq_iff_eq] at mark
  rcases mark with (rfl | rfl) | rfl <;> exact absurd word (by decide)

/-- Lexemes of most kinds can be told from what is written around them. -/
theorem Lexeme.solid {kind : Kind} {w : String} (lexeme : Lexeme kind w.toList)
    (word : kind.isWord) : Sexp.Solid w := by
  refine ⟨lexeme.ne_nil, ?_⟩
  have digit : ∀ {c}, Digit c → Sexp.isMark c = false := fun digit =>
    isMark_of_isWordChar (isWordChar_iff.2 (.inr digit))
  have letter : ∀ {c}, Letter c → Sexp.isMark c = false := fun letter =>
    isMark_of_isWordChar (isWordChar_iff.2 (.inl letter))
  generalize w.toList = text at lexeme
  cases lexeme with
  | operator listed =>
    have all : ∀ entry ∈ operators, entry.2.isWord → entry.1.all fun c => !Sexp.isMark c := by
      decide
    simpa using all _ listed word
  | string => cases word
  | integer starts all =>
    rintro c (_ | ⟨_, mem⟩)
    · exact digit starts
    · exact digit (all c mem)
  | decimal starts all fraction =>
    rintro c (_ | ⟨_, mem⟩)
    · exact digit starts
    · rcases List.mem_append.1 mem with mem | (_ | ⟨_, mem⟩)
      · exact digit (all c mem)
      · rfl
      · exact digit (fraction c mem)
  | keyword listed =>
    obtain ⟨c, cs, chars, starts, all⟩ := Kind.exists_letter (List.mem_map_of_mem listed)
    rw [String.toList_ofList] at chars
    subst chars
    rintro d (_ | ⟨_, mem⟩)
    · exact letter starts
    · exact isMark_of_isWordChar (all d mem)
  | identifier starts all =>
    rintro c (_ | ⟨_, mem⟩)
    · exact letter starts
    · exact isMark_of_isWordChar (isWordChar_iff.2 (all c mem))

/-- The kind of a word, which the scanner reads as one token. -/
def kindOf? (w : String) : Option Kind :=
  match w.toList with
  | [] => none
  | c :: cs =>
    match (Piece.at c cs).form with
    | .token kind => some kind
    | _ => none

/-- The word as a token without a line. -/
def token? (w : String) : Option Token := (kindOf? w).map (⟨·, w, 0⟩)

theorem token?_eq {kind : Kind} {w : String} (lexeme : Lexeme kind w.toList) :
    token? w = some ⟨kind, w, 0⟩ := by
  obtain ⟨c, cs, chars⟩ := List.exists_cons_of_ne_nil lexeme.ne_nil
  rw [chars] at lexeme
  unfold token? kindOf?
  rw [chars]
  simp only [Piece.form_of_lexeme lexeme]
  rfl

/-- A token that is a lexeme is read off its lexeme, but for its line. -/
theorem Token.Spelled.token? {t : Token} (spelled : t.Spelled) :
    token? t.lexeme = some t.unlined := token?_eq spelled

/-! ## Reading forms -/

/-- An operator between two expressions, of which both are evaluated or the left one decides. -/
def infixed (left : Expr) (op : Token) (right : Expr) : Expr :=
  if op.kind.isInfix then .binary left op right else .logical left op right

mutual

/-- The expression of a form, without ids and lines. -/
def Sexp.expr? : Sexp → Option Expr
  | .word w => do
    let t ← token? w
    if t.kind = .identifier then return .variable 0 t
    return .literal (← Grammar.literal? t.kind)
  | .list [.word "group", inner] => do return .group (← inner.expr?)
  | .list (.word "call" :: callee :: args) => do
    return .call (← callee.expr?) ⟨.rightParen, ")", 0⟩ (← Sexp.exprs? args)
  | .list [.word "=", .word name, value] => do return .assign 0 (← token? name) (← value.expr?)
  | .list [.word "=", .list [.word ".", object, .word name], value] => do
    return .set (← object.expr?) (← token? name) (← value.expr?)
  | .list [.word ".", object, .word name] => do return .get (← object.expr?) (← token? name)
  | .list [.word op, right] => do return .unary (← token? op) (← right.expr?)
  | .list [.word op, left, right] => do
    return infixed (← left.expr?) (← token? op) (← right.expr?)
  | _ => none

def Sexp.exprs? : List Sexp → Option (List Expr)
  | [] => some []
  | e :: es => do return (← e.expr?) :: (← Sexp.exprs? es)

end

def Sexp.names? : List Sexp → Option (List Token)
  | [] => some []
  | .word name :: names => do return (← token? name) :: (← Sexp.names? names)
  | _ => none

mutual

/-- The statement of a form, without ids and lines. -/
def Sexp.stmt? : Sexp → Option Stmt
  | .list (.word "block" :: body) => do return .block (← Sexp.stmts? body)
  | .list [.word "class", .word name] => do return .class (← token? name) []
  | .list [.word ";", e] => do return .expression (← e.expr?)
  | .list [.word "fun", .word name, .list params, .list (.word "block" :: body)] => do
    return .function ⟨← token? name, ← Sexp.names? params, ← Sexp.stmts? body⟩
  | .list [.word "if", condition, thenBranch] => do
    return .if (← condition.expr?) (← thenBranch.stmt?) none
  | .list [.word "if", condition, thenBranch, elseBranch] => do
    return .if (← condition.expr?) (← thenBranch.stmt?) (some (← elseBranch.stmt?))
  | .list [.word "print", e] => do return .print (← e.expr?)
  | .list [.word "return"] => some (.return ⟨.return, "return", 0⟩ none)
  | .list [.word "return", value] => do
    return .return ⟨.return, "return", 0⟩ (some (← value.expr?))
  | .list [.word "var", .word name] => do return .var (← token? name) none
  | .list [.word "var", .word name, value] => do
    return .var (← token? name) (some (← value.expr?))
  | .list [.word "while", condition, body] => do
    return .while (← condition.expr?) (← body.stmt?)
  | _ => none

def Sexp.stmts? : List Sexp → Option (List Stmt)
  | [] => some []
  | s :: ss => do return (← s.stmt?) :: (← Sexp.stmts? ss)

end

/-! ## Reading back -/

theorem readable_treeNumber : Number.Readable treeNumber :=
  ⟨fun _ => rfl, rfl, .inr rfl, .inl rfl⟩

/-- What is written for a constant is a lexeme of it. -/
theorem Literal.lexeme {l : Literal} (spelled : l.Spelled) (faithful : l.Faithful) :
    Lexeme l.kind l.text.toList := by
  cases l with
  | nil => exact .keyword (by decide)
  | bool b => cases b <;> exact .keyword (by decide)
  | number x =>
    obtain ⟨source, lexeme⟩ := spelled
    exact Number.lexeme_text_of_lexeme readable_treeNumber lexeme faithful
  | string s => exact faithful.elim

theorem Literal.literal?_kind (l : Literal) : Grammar.literal? l.kind = some l := by
  cases l with
  | bool b => cases b <;> rfl
  | _ => rfl

theorem Literal.kind_ne_identifier (l : Literal) : l.kind ≠ .identifier := by
  cases l with
  | bool b => cases b <;> nofun
  | _ => nofun

/-- A token of another kind has another lexeme. -/
theorem Token.Spelled.lexeme_ne {t : Token} (spelled : t.Spelled) {kind : Kind} {w : String}
    (lexeme : Lexeme kind w.toList) (other : t.kind ≠ kind) : t.lexeme ≠ w := by
  rintro rfl
  exact other (Lexeme.unique spelled lexeme)

/-- The operator can be told from the words that forms begin with. -/
structure Token.Heads (op : Token) : Prop where
  group : op.lexeme ≠ "group"
  call : op.lexeme ≠ "call"
  equal : op.lexeme ≠ "="
  dot : op.lexeme ≠ "."

theorem Token.Spelled.heads {op : Token} (spelled : op.Spelled) (name : op.kind ≠ .identifier)
    (equal : op.kind ≠ .equal) (dot : op.kind ≠ .dot) : op.Heads where
  group := spelled.lexeme_ne (@Piece.lexeme_at 'g' ['r', 'o', 'u', 'p'] .identifier rfl) name
  call := spelled.lexeme_ne (@Piece.lexeme_at 'c' ['a', 'l', 'l'] .identifier rfl) name
  equal := spelled.lexeme_ne (w := "=") (.operator (by decide)) equal
  dot := spelled.lexeme_ne (w := ".") (.operator (by decide)) dot

theorem Sexp.expr?_prefix {op : Token} (heads : op.Heads) (right : Sexp) :
    (Sexp.list [.word op.lexeme, right]).expr? =
      do return .unary (← token? op.lexeme) (← right.expr?) := by
  simp [expr?, heads.group, heads.call]

theorem Sexp.expr?_infix {op : Token} (heads : op.Heads) (left right : Sexp) :
    (Sexp.list [.word op.lexeme, left, right]).expr? =
      do return infixed (← left.expr?) (← token? op.lexeme) (← right.expr?) := by
  simp [expr?, heads.call, heads.equal, heads.dot]

theorem Token.unlined_of_content {t : Token} {kind : Kind} {w : String}
    (content : t.content = (kind, w)) : t.unlined = ⟨kind, w, 0⟩ := by
  obtain ⟨kind, lexeme, line⟩ := t
  cases content
  rfl

mutual

theorem Expr.expr?_form : ∀ e : Expr, e.Apt → e.Spelled → e.Faithful →
    e.form.expr? = some (e.map (fun _ => 0) Token.unlined)
  | .literal l, _, spelled, faithful => by
    simp [form, Sexp.expr?, token?_eq (l.lexeme spelled faithful), l.literal?_kind,
      l.kind_ne_identifier]
  | .variable _ name, _, spelled, _ => by
    simp [form, Sexp.expr?, spelled.2.token?, Token.unlined, spelled.1]
  | .group inner, apt, spelled, faithful => by
    simp [form, Sexp.expr?, inner.expr?_form apt spelled faithful]
  | .unary op right, apt, spelled, faithful => by
    have heads : op.Heads := by
      refine spelled.1.heads ?_ ?_ ?_ <;> rcases apt.1 with kind | kind <;> rw [kind] <;> nofun
    rw [form, Sexp.expr?_prefix heads, spelled.1.token?,
      right.expr?_form apt.2 spelled.2 faithful]
    rfl
  | .binary left op right, apt, spelled, faithful => by
    have heads : op.Heads := by
      refine spelled.2.1.heads ?_ ?_ ?_ <;>
        exact fun kind => absurd apt.2.1 (by rw [kind]; decide)
    rw [form, Sexp.expr?_infix heads, spelled.2.1.token?,
      left.expr?_form apt.1 spelled.1 faithful.1,
      right.expr?_form apt.2.2 spelled.2.2 faithful.2]
    simp [infixed, Token.kind_unlined, apt.2.1]
  | .logical left op right, apt, spelled, faithful => by
    have heads : op.Heads := by
      refine spelled.2.1.heads ?_ ?_ ?_ <;> rcases apt.2.1 with kind | kind <;> rw [kind] <;> nofun
    have decides : op.kind.isInfix = false := by rcases apt.2.1 with kind | kind <;> rw [kind] <;> rfl
    rw [form, Sexp.expr?_infix heads, spelled.2.1.token?,
      left.expr?_form apt.1 spelled.1 faithful.1,
      right.expr?_form apt.2.2 spelled.2.2 faithful.2]
    simp [infixed, Token.kind_unlined, decides]
  | .assign _ name value, apt, spelled, faithful => by
    simp [form, Sexp.expr?, spelled.1.2.token?, value.expr?_form apt spelled.2 faithful]
  | .call callee paren args, apt, spelled, faithful => by
    simp [form, Sexp.expr?, callee.expr?_form apt.1 spelled.1 faithful.1,
      Expr.exprs?_forms args apt.2 spelled.2.2 faithful.2,
      Token.unlined_of_content spelled.2.1]
  | .get object name, apt, spelled, faithful => by
    simp [form, Sexp.expr?, spelled.2.2.token?, object.expr?_form apt spelled.1 faithful]
  | .set object name value, apt, spelled, faithful => by
    simp [form, Sexp.expr?, spelled.2.1.2.token?, object.expr?_form apt.1 spelled.1 faithful.1,
      value.expr?_form apt.2 spelled.2.2 faithful.2]

theorem Expr.exprs?_forms : ∀ es : List Expr, Expr.AllApt es → Expr.AllSpelled es →
    Expr.AllFaithful es → Sexp.exprs? (Expr.forms es) =
      some (Expr.mapAll (fun _ => 0) Token.unlined es)
  | [], _, _, _ => rfl
  | e :: es, apt, spelled, faithful => by
    simp [forms, Sexp.exprs?, e.expr?_form apt.1 spelled.1 faithful.1,
      exprs?_forms es apt.2 spelled.2 faithful.2]

end

theorem names?_nameForms : ∀ names : List Token, (∀ name ∈ names, name.Names) →
    Sexp.names? (nameForms names) = some (names.map Token.unlined)
  | [], _ => rfl
  | name :: names, spelled => by
    have rest : nameForms (name :: names) = .word name.lexeme :: nameForms names := rfl
    obtain ⟨first, others⟩ := List.forall_mem_cons.1 spelled
    simp [rest, Sexp.names?, first.2.token?, names?_nameForms names others]

mutual

theorem Stmt.stmt?_form : ∀ s : Stmt, s.Apt → s.Spelled → s.Faithful →
    s.form.stmt? = some (s.map (fun _ => 0) Token.unlined)
  | .block body, apt, spelled, faithful => by
    simp [form, Sexp.stmt?, stmts?_forms body apt spelled faithful]
  | .class name methods, _, spelled, faithful => by
    have none : methods = [] := faithful
    subst none
    simp [form, methodForms, Sexp.stmt?, spelled.1.2.token?]
  | .expression e, apt, spelled, faithful | .print e, apt, spelled, faithful => by
    simp [form, Sexp.stmt?, e.expr?_form apt spelled faithful]
  | .function ⟨name, params, body⟩, apt, spelled, faithful => by
    simp [form, Sexp.stmt?, spelled.1.2.token?, names?_nameForms params spelled.2.1,
      stmts?_forms body apt spelled.2.2 faithful]
  | .if condition thenBranch none, apt, spelled, faithful => by
    simp [form, Sexp.stmt?, condition.expr?_form apt.1 spelled.1 faithful.1,
      stmt?_form thenBranch apt.2 spelled.2 faithful.2]
  | .if condition thenBranch (some elseBranch), apt, spelled, faithful => by
    simp [form, Sexp.stmt?, condition.expr?_form apt.1 spelled.1 faithful.1,
      stmt?_form thenBranch apt.2.1 spelled.2.1 faithful.2.1,
      stmt?_form elseBranch apt.2.2 spelled.2.2 faithful.2.2]
  | .return keyword none, _, spelled, _ => by
    simp [form, Sexp.stmt?, Token.unlined_of_content spelled.1]
  | .return keyword (some value), apt, spelled, faithful => by
    simp [form, Sexp.stmt?, Token.unlined_of_content spelled.1,
      value.expr?_form apt spelled.2 faithful]
  | .var name none, _, spelled, _ => by
    simp [form, Sexp.stmt?, spelled.1.2.token?]
  | .var name (some value), apt, spelled, faithful => by
    simp [form, Sexp.stmt?, spelled.1.2.token?, value.expr?_form apt spelled.2 faithful]
  | .while condition body, apt, spelled, faithful => by
    simp [form, Sexp.stmt?, condition.expr?_form apt.1 spelled.1 faithful.1,
      stmt?_form body apt.2 spelled.2 faithful.2]

theorem Stmt.stmts?_forms : ∀ ss : List Stmt, Stmt.AllApt ss → Stmt.AllSpelled ss →
    Stmt.AllFaithful ss → Sexp.stmts? (Stmt.forms ss) =
      some (Stmt.mapAll (fun _ => 0) Token.unlined ss)
  | [], _, _, _ => rfl
  | s :: ss, apt, spelled, faithful => by
    simp [forms, Sexp.stmts?, stmt?_form s apt.1 spelled.1 faithful.1,
      stmts?_forms ss apt.2 spelled.2 faithful.2]

end

/-! ## Proper forms -/

theorem Sexp.Proper.node {head : String} (solid : Solid head) {parts : List Sexp}
    (proper : AllProper parts) : (Sexp.list (.word head :: parts)).Proper := ⟨solid, proper⟩

theorem Literal.solid {l : Literal} (spelled : l.Spelled) (faithful : l.Faithful) :
    Sexp.Solid l.text := by
  refine (l.lexeme spelled faithful).solid ?_
  cases l with
  | string => exact faithful.elim
  | bool b => cases b <;> rfl
  | _ => rfl

theorem Token.Names.solid {name : Token} (names : name.Names) : Sexp.Solid name.lexeme :=
  names.2.solid (by rw [names.1]; rfl)

theorem Kind.isWord_of_isInfix {kind : Kind} (operator : kind.isInfix) : kind.isWord := by
  cases kind <;> first | rfl | cases operator

mutual

theorem Expr.proper_form : ∀ e : Expr, e.Apt → e.Spelled → e.Faithful → e.form.Proper
  | .literal _, _, spelled, faithful => Literal.solid spelled faithful
  | .variable _ _, _, spelled, _ => spelled.solid
  | .group inner, apt, spelled, faithful =>
    .node (by decide) ⟨inner.proper_form apt spelled faithful, trivial⟩
  | .unary op right, apt, spelled, faithful => by
    have solid : Sexp.Solid op.lexeme :=
      spelled.1.solid (by rcases apt.1 with kind | kind <;> rw [kind] <;> rfl)
    exact .node solid ⟨right.proper_form apt.2 spelled.2 faithful, trivial⟩
  | .binary left op right, apt, spelled, faithful => by
    have solid : Sexp.Solid op.lexeme := spelled.2.1.solid (Kind.isWord_of_isInfix apt.2.1)
    exact .node solid ⟨left.proper_form apt.1 spelled.1 faithful.1,
      right.proper_form apt.2.2 spelled.2.2 faithful.2, trivial⟩
  | .logical left op right, apt, spelled, faithful => by
    have solid : Sexp.Solid op.lexeme :=
      spelled.2.1.solid (by rcases apt.2.1 with kind | kind <;> rw [kind] <;> rfl)
    exact .node solid ⟨left.proper_form apt.1 spelled.1 faithful.1,
      right.proper_form apt.2.2 spelled.2.2 faithful.2, trivial⟩
  | .assign _ _ value, apt, spelled, faithful =>
    .node (by decide) ⟨spelled.1.solid, value.proper_form apt spelled.2 faithful, trivial⟩
  | .call callee _ args, apt, spelled, faithful =>
    .node (by decide) ⟨callee.proper_form apt.1 spelled.1 faithful.1,
      Expr.proper_forms args apt.2 spelled.2.2 faithful.2⟩
  | .get object _, apt, spelled, faithful =>
    .node (by decide) ⟨object.proper_form apt spelled.1 faithful, spelled.2.solid, trivial⟩
  | .set object _ value, apt, spelled, faithful =>
    .node (by decide)
      ⟨.node (by decide)
          ⟨object.proper_form apt.1 spelled.1 faithful.1, spelled.2.1.solid, trivial⟩,
        value.proper_form apt.2 spelled.2.2 faithful.2, trivial⟩

theorem Expr.proper_forms : ∀ es : List Expr, Expr.AllApt es → Expr.AllSpelled es →
    Expr.AllFaithful es → Sexp.AllProper (Expr.forms es)
  | [], _, _, _ => trivial
  | e :: es, apt, spelled, faithful =>
    ⟨e.proper_form apt.1 spelled.1 faithful.1, proper_forms es apt.2 spelled.2 faithful.2⟩

end

theorem allProper_nameForms : ∀ names : List Token, (∀ name ∈ names, name.Names) →
    Sexp.AllProper (nameForms names)
  | [], _ => trivial
  | _ :: names, spelled => by
    obtain ⟨first, others⟩ := List.forall_mem_cons.1 spelled
    exact ⟨first.solid, allProper_nameForms names others⟩

mutual

/-- The words in the form of a faithful tree can be told from each other. -/
theorem Stmt.proper_form : ∀ s : Stmt, s.Apt → s.Spelled → s.Faithful → s.form.Proper
  | .block body, apt, spelled, faithful => .node (by decide) (proper_forms body apt spelled faithful)
  | .class _ methods, _, spelled, faithful => by
    have none : methods = [] := faithful
    subst none
    exact .node (by decide) ⟨spelled.1.solid, trivial⟩
  | .expression e, apt, spelled, faithful | .print e, apt, spelled, faithful =>
    .node (by decide) ⟨e.proper_form apt spelled faithful, trivial⟩
  | .function ⟨_, params, body⟩, apt, spelled, faithful =>
    .node (by decide) ⟨spelled.1.solid, allProper_nameForms params spelled.2.1,
      .node (by decide) (proper_forms body apt spelled.2.2 faithful), trivial⟩
  | .if condition thenBranch none, apt, spelled, faithful =>
    .node (by decide) ⟨condition.proper_form apt.1 spelled.1 faithful.1,
      proper_form thenBranch apt.2 spelled.2 faithful.2, trivial⟩
  | .if condition thenBranch (some elseBranch), apt, spelled, faithful =>
    .node (by decide) ⟨condition.proper_form apt.1 spelled.1 faithful.1,
      proper_form thenBranch apt.2.1 spelled.2.1 faithful.2.1,
      proper_form elseBranch apt.2.2 spelled.2.2 faithful.2.2, trivial⟩
  | .return _ none, _, _, _ => .node (by decide) trivial
  | .return _ (some value), apt, spelled, faithful =>
    .node (by decide) ⟨value.proper_form apt spelled.2 faithful, trivial⟩
  | .var _ none, _, spelled, _ => .node (by decide) ⟨spelled.1.solid, trivial⟩
  | .var _ (some value), apt, spelled, faithful =>
    .node (by decide) ⟨spelled.1.solid, value.proper_form apt spelled.2 faithful, trivial⟩
  | .while condition body, apt, spelled, faithful =>
    .node (by decide) ⟨condition.proper_form apt.1 spelled.1 faithful.1,
      proper_form body apt.2 spelled.2 faithful.2, trivial⟩

theorem Stmt.proper_forms : ∀ ss : List Stmt, Stmt.AllApt ss → Stmt.AllSpelled ss →
    Stmt.AllFaithful ss → Sexp.AllProper (Stmt.forms ss)
  | [], _, _, _ => trivial
  | s :: ss, apt, spelled, faithful =>
    ⟨proper_form s apt.1 spelled.1 faithful.1, proper_forms ss apt.2 spelled.2 faithful.2⟩

end

end Lox
