/-
The parser reads every derivation. Put in front of tokens that do not belong to it, the tokens of a
bounded derivation lead from the task that looks for its phrase to the task that hands over its
tree, and no error is noted on the way (`reads`, by induction on the derivation, with one lemma a
rule). Only the first token behind the derivation matters: an expression ends where no operator,
parenthesis or dot of its rank follows, and an `if` without `else` where no `else` follows.
-/
import Lox.Proofs.Grammar.Steps

namespace Lox.Grammar

open Parse Parse.State

/-! ## The first token of a phrase -/

/-- The kinds that an expression without operators in front can start with. -/
def startsPrimary : Kind → Bool
  | .false | .true | .nil | .number _ | .string _ | .identifier | .leftParen => true
  | _ => false

def startsExpression : Kind → Bool
  | .bang | .minus => true
  | k => startsPrimary k

/-- The kinds that a phrase can start with. -/
def Phrase.starts : Phrase → Kind → Bool
  | expression .primary, k | expression .call, k => startsPrimary k
  | expression _, k | arguments, k | expressionStatement, k => startsExpression k
  | varDeclaration, k => k = .var
  | block, k => k = .leftBrace
  | statement, k => startsExpression k || startsWordStatement k
  | declaration, k =>
    startsExpression k || startsWordStatement k || k = .class || k = .fun || k = .var
  | function, k => k = .identifier
  | _, _ => true

theorem startsPrimary_of_literal {k : Kind} {l : Literal} (h : literal? k = some l) :
    startsPrimary k = true := by
  unfold literal? at h
  split at h <;> first | rfl | cases h

theorem startsExpression_of_primary {k : Kind} (h : startsPrimary k = true) :
    startsExpression k = true := by
  unfold startsExpression
  split <;> first | rfl | exact h

theorem startsWordStatement_of_expression {k : Kind} (h : startsExpression k = true) :
    startsWordStatement k = false := by
  unfold startsWordStatement
  split <;> first | rfl | cases h

theorem starts_of_operand {l : Level} {k : Kind}
    (h : (Phrase.expression (operandRank l)).starts k = true) : startsExpression k = true := by
  cases l <;> exact h

/-- A derivation that cannot be empty starts with a token its phrase can start with. -/
theorem starts_tokens {p : Phrase} (d : Derivation p) (rest : List Token) :
    p.starts (firstKind (d.tokens ++ rest)) = true := by
  induction d generalizing rest with
  | literal t l h => exact startsPrimary_of_literal h
  | prefixed op right _ =>
    rcases op.2 with h | h <;>
      simp [Derivation.tokens, Phrase.starts, firstKind, startsExpression, h]
  | callOfPrimary e ih | assignmentOfOr e ih | lastArgument e ih => exact ih rest
  | unaryOfCall e ih => exact startsExpression_of_primary (ih rest)
  | statementOfExpression e ih =>
    have first : startsExpression (firstKind (e.tokens ++ rest)) = true := ih rest
    simp [Derivation.tokens, Phrase.starts, first]
  | statementOfBlock b ih | declarationOfVariable v ih =>
    have first := of_decide_eq_true (ih rest)
    simp [Derivation.tokens, Phrase.starts, startsWordStatement, first]
  | declarationOfStatement s ih =>
    have first := Bool.or_eq_true_iff.1 (ih rest)
    rcases first with h | h <;> simp [Derivation.tokens, Phrase.starts, h]
  | binaryOfOperand l e ih => exact starts_of_operand (ih rest)
  | callNone callee opening closing ih | callSome callee opening args closing ih
  | get object dot name ih | binary l left op right ih
  | argument e comma others ih | expressionStatement e semicolon ih =>
    simpa [Derivation.tokens, Phrase.starts] using ih _
  | set object dot name equals value ih =>
    have first := ih (dot.1 :: name.1 :: equals.1 :: value.tokens ++ rest)
    simpa [Derivation.tokens, Phrase.starts] using startsExpression_of_primary first
  | identifier name | assign name equals value | function name opening params closing body =>
    simp [Derivation.tokens, Phrase.starts, firstKind, startsExpression, startsPrimary, name.2]
  | group opening inner closing | block opening body closing =>
    simp [Derivation.tokens, Phrase.starts, firstKind, startsPrimary, opening.2]
  | uninitialized keyword name semicolon | initialized keyword name equals value semicolon
  | forLoop keyword opening initializer test semicolon step closing body
  | ifThen keyword opening test closing thenBranch
  | ifElse keyword opening test closing thenBranch otherwise elseBranch
  | print keyword e semicolon | «return» keyword value semicolon
  | «while» keyword opening test closing body | functionDeclaration keyword f
  | classDeclaration keyword name opening methods closing =>
    simp [Derivation.tokens, Phrase.starts, firstKind, startsWordStatement, keyword.2]
  | absent | present e | noInitializer semicolon | variableInitializer v
  | expressionInitializer e | noDeclarations | declarations first others | noFunctions
  | functions first others =>
    rfl

/-! ## Where an expression ends -/

/-- The levels of operators, loosest first. -/
def tightness : Level → Nat
  | .or => 0
  | .and => 1
  | .equality => 2
  | .comparison => 3
  | .term => 4
  | .factor => 5

/-- Behind an expression of the rank, a token of the kind does not belong to it. -/
def Stops : Rank → Kind → Prop
  | .primary, _ => True
  | .call, _ => True
  | .unary, k => k ≠ .leftParen ∧ k ≠ .dot
  | .binary l, k =>
    (k ≠ .leftParen ∧ k ≠ .dot) ∧ ∀ l', tightness l < tightness l' → l'.admits k = false
  | .assignment, k =>
    (k ≠ .leftParen ∧ k ≠ .dot) ∧ (∀ l : Level, l.admits k = false) ∧ k ≠ .equal

/-- The operands of a level end where neither its operators nor tighter ones follow. -/
theorem stops_operand {l : Level} {k : Kind} (h : Stops (.binary l) k) :
    Stops (operandRank l) k := by
  cases l with
  | factor => exact h.1
  | _ => exact ⟨h.1, fun l' hl => h.2 l' (by simp only [tightness] at *; omega)⟩

/-- The operators of a level end the operands in front of them. -/
theorem stops_of_admits {l : Level} {t : Token} {ts : List Token} (h : l.admits t.kind = true) :
    Stops (.binary l) (firstKind (t :: ts)) := by
  rw [firstKind]
  generalize t.kind = k at h
  refine ⟨?_, fun l' hl => ?_⟩
  · cases l <;> cases k <;> simp_all [Level.admits]
  · cases l <;> cases k <;> simp [Level.admits] at h <;> cases l' <;>
      simp [tightness, Level.admits] at *

/-- What the grammar has behind an expression ends it. -/
theorem stops_assignment {kind : Kind}
    (closes : kind = .rightParen ∨ kind = .comma ∨ kind = .semicolon) {t : Token} {ts : List Token}
    (h : t.kind = kind) : Stops .assignment (firstKind (t :: ts)) := by
  rw [firstKind, h]
  rcases closes with rfl | rfl | rfl <;>
    exact ⟨by decide, fun l => by cases l <;> rfl, by decide⟩

theorem stops_rightParen {t : Token} {ts : List Token} (h : t.kind = .rightParen) :
    Stops .assignment (firstKind (t :: ts)) := stops_assignment (.inl rfl) h

theorem stops_comma {t : Token} {ts : List Token} (h : t.kind = .comma) :
    Stops .assignment (firstKind (t :: ts)) := stops_assignment (.inr (.inl rfl)) h

theorem stops_semicolon {t : Token} {ts : List Token} (h : t.kind = .semicolon) :
    Stops .assignment (firstKind (t :: ts)) := stops_assignment (.inr (.inr rfl)) h

theorem stops_equal {t : Token} {ts : List Token} (h : t.kind = .equal) (l : Level) :
    Stops (.binary l) (firstKind (t :: ts)) ∧ l.admits (firstKind (t :: ts)) = false := by
  rw [firstKind, h]
  exact ⟨⟨by decide, fun l' _ => by cases l' <;> rfl⟩, by cases l <;> rfl⟩

/-- What ends an assignment ends the operators of every level in it. -/
theorem Stops.or {k : Kind} (h : Stops .assignment k) :
    Stops (.binary .or) k ∧ Level.or.admits k = false :=
  ⟨⟨h.1, fun l _ => h.2.1 l⟩, h.2.1 .or⟩

/-! ## What reading a phrase means -/

/-- From the task `start`, the parser reads the derivation's tokens in front of `rest`, and goes on
with what `next` makes of its tree. -/
def Passes {p : Phrase} (d : Derivation p) (rest : List Token) (start : Task)
    (next : p.Tree → Task) : Prop :=
  ∀ (eof : Token) (n : Nat) (errors : List StaticError),
    Leads ⟨start, d.tokens ++ rest, eof, n, errors⟩
      ⟨next (d.tree n).1, rest, eof, (d.tree n).2, errors⟩

/-- The parser reads the derivation wherever its phrase is looked for. -/
def Reads : {p : Phrase} → Derivation p → Prop
  | .expression .primary, d =>
    ∀ k rest, Passes d rest (.primary k) (.giveExpression · k)
  | .expression .call, d =>
    ∀ k rest, Passes d rest (.primary (.trailers k)) (.giveExpression · (.trailers k))
  | .expression .unary, d =>
    ∀ k rest, Stops .unary (firstKind rest) → Passes d rest (.unary k) (.giveExpression · k)
  | .expression (.binary l), d =>
    ∀ k rest, Stops (.binary l) (firstKind rest) →
      Passes d rest (.level l k) (.giveExpression · (.operators l k))
  | .expression .assignment, d =>
    ∀ k rest, Stops .assignment (firstKind rest) →
      Passes d rest (.expression k) (.giveExpression · k)
  | .arguments, d =>
    ∀ callee done k (closing : Token) rest eof n errors, closing.kind = .rightParen →
      done.length + d.arity ≤ maxArity →
      Leads ⟨.argument callee done k, d.tokens ++ closing :: rest, eof, n, errors⟩
        ⟨.giveExpression (.call callee closing (done.reverse ++ (d.tree n).1)) k, rest, eof,
          (d.tree n).2, errors⟩
  | .optional, .absent => True
  | .optional, .present e =>
    ∀ k rest, Stops .assignment (firstKind rest) →
      Passes e rest (.expression k) (.giveExpression · k)
  | .varDeclaration, d =>
    (∀ k rest, Passes d rest (.declaration k) (.giveStatement · k)) ∧
      ∀ k rest, Passes d rest (.forInitializer k) fun s => .giveStatement s (.forInitializer k)
  | .expressionStatement, d =>
    ∀ k rest, Passes d rest (.expression (.expressionStatement k)) (.giveStatement · k)
  | .initializer, d => ∀ k rest, Passes d rest (.forInitializer k) (.forTest · k)
  | .statement, d =>
    ∀ k rest, d.Nearest rest → Passes d rest (.statement k) (.giveStatement · k)
  | .declaration, d =>
    ∀ k rest, d.Nearest rest → Passes d rest (.declaration k) (.giveStatement · k)
  | .declarations, d =>
    (∀ done k rest, d.Nearest rest → Passes d rest (.declarations done k) fun ss =>
        .declarations (ss.reverse ++ done) k) ∧
      ∀ done rest, d.Nearest rest → Passes d rest (.program done) fun ss =>
        .program (ss.reverse ++ done)
  | .block, d =>
    (∀ k rest, d.Nearest rest → Passes d rest (.statement k) fun ss =>
        .giveStatement (.block ss) k) ∧
      ∀ c name params k rest, d.Nearest rest →
        Passes d rest (.callableBody c name params k) fun ss => .giveFunction ⟨name, params, ss⟩ k
  | .function, d =>
    ∀ c k rest, d.Nearest rest → Passes d rest (.callableName c k) (.giveFunction · k)
  | .functions, d =>
    ∀ name done k rest, d.Nearest rest → Passes d rest (.methods name done k) fun fs =>
      .methods name (fs.reverse ++ done) k

/-! ## Expressions -/

theorem reads_literal (t : Token) (l : Literal) (h : literal? t.kind = some l) :
    Reads (.literal t l h) := fun _ _ _ _ _ => .next (step_primary_literal h) (.refl _)

theorem reads_identifier (name : Terminal .identifier) : Reads (.identifier name) :=
  fun _ _ _ _ _ => .next (step_primary_identifier name.2) (.refl _)

theorem reads_group {opening : Terminal .leftParen} {inner : Derivation (.expression .assignment)}
    {closing : Terminal .rightParen} (hi : Reads inner) : Reads (.group opening inner closing) := by
  intro k rest eof n errors
  simp only [Derivation.tokens, List.cons_append, List.append_assoc, List.nil_append]
  exact .next (step_primary_group opening.2) <|
    (hi _ _ (stops_rightParen closing.2) eof n errors).trans <|
    .next (step_group_close closing.2) (.refl _)

theorem reads_callOfPrimary {e : Derivation (.expression .primary)} (he : Reads e) :
    Reads (.callOfPrimary e) := fun k rest => he (.trailers k) rest

theorem reads_callNone {callee : Derivation (.expression .call)} {opening : Terminal .leftParen}
    {closing : Terminal .rightParen} (hf : Reads callee) :
    Reads (.callNone callee opening closing) := by
  intro k rest eof n errors
  simp only [Derivation.tokens, List.cons_append, List.append_assoc, List.nil_append]
  exact (hf k _ eof n errors).trans <| .next (step_trailers_call opening.2) <|
    .next (step_arguments_close closing.2) (.refl _)

theorem reads_lastArgument {e : Derivation (.expression .assignment)} (he : Reads e) :
    Reads (.lastArgument e) := by
  intro callee done k closing rest eof n errors hc hd
  exact .next (step_argument hd) <| (he _ _ (stops_rightParen hc) eof n errors).trans <|
    .next (step_argument_close hc) (by simpa [Derivation.tree] using .refl _)

theorem reads_argument {e : Derivation (.expression .assignment)} {comma : Terminal .comma}
    {others : Derivation .arguments} (he : Reads e) (ho : Reads others) :
    Reads (.argument e comma others) := by
  intro callee done k closing rest eof n errors hc hd
  simp only [Derivation.arity] at hd
  simp only [Derivation.tokens, List.cons_append, List.append_assoc]
  refine .next (step_argument (by omega)) <|
    (he _ _ (stops_comma comma.2) eof n errors).trans <| .next (step_argument_comma comma.2) ?_
  have := ho callee ((e.tree n).1 :: done) k closing rest eof (e.tree n).2 errors hc
    (by simp only [List.length_cons]; omega)
  simpa [Derivation.tree] using this

theorem reads_callSome {callee : Derivation (.expression .call)} {opening : Terminal .leftParen}
    {args : Derivation .arguments} {closing : Terminal .rightParen} (hf : Reads callee)
    (ha : Reads args) (hn : args.arity ≤ maxArity) :
    Reads (.callSome callee opening args closing) := by
  intro k rest eof n errors
  simp only [Derivation.tokens, List.cons_append, List.append_assoc, List.nil_append]
  -- the arguments are not none, so the list is not closed at once
  have first : firstKind (args.tokens ++ closing.1 :: rest) ≠ .rightParen := by
    intro h
    have := starts_tokens args (closing.1 :: rest)
    simp [h, Phrase.starts, startsExpression, startsPrimary] at this
  exact (hf k _ eof n errors).trans <| .next (step_trailers_call opening.2) <|
    .next (step_arguments_left first) <|
    ha _ [] _ _ _ _ _ _ closing.2 (by simpa using hn)

theorem reads_get {object : Derivation (.expression .call)} {dot : Terminal .dot}
    {name : Terminal .identifier} (ho : Reads object) : Reads (.get object dot name) := by
  intro k rest eof n errors
  simp only [Derivation.tokens, List.cons_append, List.append_assoc, List.nil_append]
  exact (ho k _ eof n errors).trans <| .next (step_trailers_dot dot.2) <|
    .next (step_property name.2) (.refl _)

/-- What starts an expression is none of the tokens that stand in its place. -/
theorem firstKind_ne {k k' : Kind} (h : startsExpression k = true)
    (h' : startsExpression k' = false) : k ≠ k' := by
  rintro rfl
  rw [h] at h'
  cases h'

theorem reads_unaryOfCall {e : Derivation (.expression .call)} (he : Reads e) :
    Reads (.unaryOfCall e) := by
  intro k rest hs eof n errors
  have first := starts_tokens e rest
  have hb : firstKind (e.tokens ++ rest) ≠ .bang := by
    intro h
    simp [h, Phrase.starts, startsPrimary] at first
  have hm : firstKind (e.tokens ++ rest) ≠ .minus := by
    intro h
    simp [h, Phrase.starts, startsPrimary] at first
  exact .next (step_unary_left hb hm) <| (he k rest eof n errors).trans <|
    .next (step_trailers_left hs.1 hs.2) (.refl _)

theorem reads_prefixed {op : PrefixOperator} {right : Derivation (.expression .unary)}
    (hr : Reads right) : Reads (.prefixed op right) := by
  intro k rest hs eof n errors
  exact .next (step_unary_operator op.2) <| (hr _ rest hs eof n errors).trans <|
    .next rfl (.refl _)

/-- The operand of a level is read by the task that looks for operands. -/
theorem passes_operand {l : Level} {e : Derivation (.expression (operandRank l))} (he : Reads e)
    (k : Pending .expression) {rest : List Token} (hs : Stops (.binary l) (firstKind rest)) :
    Passes e rest (operandTask l k) (.giveExpression · k) := by
  intro eof n errors
  cases l with
  | factor => exact he k rest hs.1 eof n errors
  | _ =>
    exact (he k rest (stops_operand hs) eof n errors).trans <|
      .next (step_operators_left (hs.2 _ (by decide))) (.refl _)

theorem reads_binaryOfOperand {l : Level} {e : Derivation (.expression (operandRank l))}
    (he : Reads e) : Reads (.binaryOfOperand l e) := by
  intro k rest hs eof n errors
  exact .next rfl (passes_operand he (.operators l k) hs eof n errors)

theorem reads_binary {l : Level} {left : Derivation (.expression (.binary l))} {op : Operator l}
    {right : Derivation (.expression (operandRank l))} (hl : Reads left) (hr : Reads right) :
    Reads (.binary l left op right) := by
  intro k rest hs eof n errors
  simp only [Derivation.tokens, List.cons_append, List.append_assoc]
  exact (hl k _ (stops_of_admits op.2) eof n errors).trans <| .next (step_operators_take op.2) <|
    (passes_operand hr _ hs eof _ errors).trans <| .next rfl (.refl _)

/-- From the task that looks for an expression to where it looks for an equals sign. -/
theorem passes_or {e : Derivation (.expression (.binary .or))} (he : Reads e)
    (k : Pending .expression) {rest : List Token}
    (hs : Stops (.binary .or) (firstKind rest) ∧ Level.or.admits (firstKind rest) = false) :
    Passes e rest (.expression k) (.giveExpression · (.assignment k)) := by
  intro eof n errors
  exact .next rfl <| (he _ rest hs.1 eof n errors).trans <|
    .next (step_operators_left hs.2) (.refl _)

theorem reads_assignmentOfOr {e : Derivation (.expression (.binary .or))} (he : Reads e) :
    Reads (.assignmentOfOr e) := by
  intro k rest hs eof n errors
  exact (passes_or he k hs.or eof n errors).trans <|
    .next (step_assignment_left hs.2.2) (.refl _)

theorem reads_orOfCall {e : Derivation (.expression .call)} (he : Reads e) : Reads (orOfCall e) :=
  reads_binaryOfOperand <| reads_binaryOfOperand <| reads_binaryOfOperand <|
    reads_binaryOfOperand <| reads_binaryOfOperand <| reads_binaryOfOperand <|
      reads_unaryOfCall he

theorem reads_assign {name : Terminal .identifier} {equals : Terminal .equal}
    {value : Derivation (.expression .assignment)} (hv : Reads value) :
    Reads (.assign name equals value) := by
  intro k rest hs eof n errors
  -- the target is read as an expression first, up to the equals sign
  have target : Reads (orOfCall (.callOfPrimary (.identifier name))) :=
    reads_orOfCall (reads_callOfPrimary (reads_identifier name))
  exact (passes_or target k (stops_equal equals.2 .or) eof n errors).trans <|
    .next (step_assignment_take equals.2) <| (hv _ rest hs eof (n + 1) errors).trans <|
    .next rfl (.refl _)

theorem reads_set {object : Derivation (.expression .call)} {dot : Terminal .dot}
    {name : Terminal .identifier} {equals : Terminal .equal}
    {value : Derivation (.expression .assignment)} (ho : Reads object) (hv : Reads value) :
    Reads (.set object dot name equals value) := by
  intro k rest hs eof n errors
  -- the target is read as an expression first, up to the equals sign
  have target : Reads (orOfCall (.get object dot name)) := reads_orOfCall (reads_get ho)
  have stop := @stops_equal equals.1 (value.tokens ++ rest) equals.2 .or
  have passes := passes_or target k stop eof n
  simp only [orOfCall, Derivation.tokens, List.cons_append, List.append_assoc] at passes ⊢
  exact (passes errors).trans <|
    .next (step_assignment_take equals.2) <| (hv _ rest hs eof _ errors).trans <|
    .next rfl (.refl _)

/-! ## Statements -/

theorem reads_present {e : Derivation (.expression .assignment)} (he : Reads e) :
    Reads (.present e) := he

theorem reads_uninitialized {keyword : Terminal .var} {name : Terminal .identifier}
    {semicolon : Terminal .semicolon} : Reads (.uninitialized keyword name semicolon) := by
  have body : ∀ k rest eof n errors,
      Leads ⟨.variableName k, name.1 :: semicolon.1 :: rest, eof, n, errors⟩
        ⟨.giveStatement (.var name.1 none) k, rest, eof, n, errors⟩ := fun _ _ _ _ _ =>
    .next (step_variableName name.2) <| .next (step_variableValue_end semicolon.2) (.refl _)
  exact ⟨fun k rest eof n errors => .next (step_declaration_var keyword.2) (body k rest _ _ _),
    fun k rest eof n errors => .next (step_forInitializer_var keyword.2) (body _ rest _ _ _)⟩

theorem reads_initialized {keyword : Terminal .var} {name : Terminal .identifier}
    {equals : Terminal .equal} {value : Derivation (.expression .assignment)}
    {semicolon : Terminal .semicolon} (hv : Reads value) :
    Reads (.initialized keyword name equals value semicolon) := by
  -- the same clause, whether it stands alone or in a `for` loop
  have body : ∀ k rest eof n errors,
      Leads ⟨.variableName k, name.1 :: equals.1 :: (value.tokens ++ semicolon.1 :: rest), eof, n,
          errors⟩
        ⟨.giveStatement (.var name.1 (some (value.tree n).1)) k, rest, eof, (value.tree n).2,
          errors⟩ := fun _ _ _ n _ =>
    .next (step_variableName name.2) <| .next (step_variableValue_equal equals.2) <|
      (hv _ _ (stops_semicolon semicolon.2) _ n _).trans <|
      .next (step_initializer_end semicolon.2) (.refl _)
  constructor
  · intro k rest eof n errors
    simp only [Derivation.tokens, List.cons_append, List.append_assoc, List.nil_append]
    exact .next (step_declaration_var keyword.2) (body k rest _ _ _)
  · intro k rest eof n errors
    simp only [Derivation.tokens, List.cons_append, List.append_assoc, List.nil_append]
    exact .next (step_forInitializer_var keyword.2) (body _ rest _ _ _)

theorem reads_expressionStatement {e : Derivation (.expression .assignment)}
    {semicolon : Terminal .semicolon} (he : Reads e) :
    Reads (.expressionStatement e semicolon) := by
  intro k rest eof n errors
  simp only [Derivation.tokens, List.cons_append, List.append_assoc, List.nil_append]
  exact (he _ _ (stops_semicolon semicolon.2) eof n errors).trans <|
    .next (step_expression_end semicolon.2) (.refl _)

theorem reads_noInitializer {semicolon : Terminal .semicolon} :
    Reads (.noInitializer semicolon) :=
  fun _ _ _ _ _ => .next (step_forInitializer_none semicolon.2) (.refl _)

theorem reads_variableInitializer {v : Derivation .varDeclaration} (hv : Reads v) :
    Reads (.variableInitializer v) :=
  fun k rest eof n errors => (hv.2 k rest eof n errors).trans <| .next rfl (.refl _)

theorem reads_expressionInitializer {e : Derivation .expressionStatement} (he : Reads e) :
    Reads (.expressionInitializer e) := by
  intro k rest eof n errors
  have first := starts_tokens e rest
  exact .next (step_forInitializer_left (firstKind_ne first rfl) (firstKind_ne first rfl)) <|
    (he _ rest eof n errors).trans <| .next rfl (.refl _)

theorem reads_statementOfExpression {e : Derivation .expressionStatement} (he : Reads e) :
    Reads (.statementOfExpression e) := by
  intro k rest _ eof n errors
  have first := starts_tokens e rest
  exact .next (step_statement_left (startsWordStatement_of_expression first))
    (he k rest eof n errors)

/-- The middle clause of a `for` loop is read up to its semicolon. -/
theorem leads_forTest {test : Derivation .optional} (ht : Reads test) {semicolon : Token}
    (hs : semicolon.kind = .semicolon) (i : Option Stmt) (k : Pending .statement)
    (rest : List Token) (eof : Token) (n : Nat) (errors : List StaticError) :
    Leads ⟨.forTest i k, test.tokens ++ semicolon :: rest, eof, n, errors⟩
      ⟨.forStep i (test.tree n).1 k, rest, eof, (test.tree n).2, errors⟩ := by
  cases test with
  | absent => exact .next (step_forTest_none hs) (.refl _)
  | present e =>
    have first := starts_tokens e (semicolon :: rest)
    exact .next (step_forTest_left (firstKind_ne first rfl)) <|
      (ht _ _ (stops_semicolon hs) eof n errors).trans <| .next (step_forTest_end hs) (.refl _)

/-- The last clause of a `for` loop is read up to the closing parenthesis. -/
theorem leads_forStep {step : Derivation .optional} (hp : Reads step) {closing : Token}
    (hc : closing.kind = .rightParen) (i : Option Stmt) (x : Option Expr)
    (k : Pending .statement) (rest : List Token) (eof : Token) (n : Nat)
    (errors : List StaticError) :
    Leads ⟨.forStep i x k, step.tokens ++ closing :: rest, eof, n, errors⟩
      ⟨.statement (.forBody i x (step.tree n).1 k), rest, eof, (step.tree n).2, errors⟩ := by
  cases step with
  | absent => exact .next (step_forStep_none hc) (.refl _)
  | present e =>
    have first := starts_tokens e (closing :: rest)
    exact .next (step_forStep_left (firstKind_ne first rfl)) <|
      (hp _ _ (stops_rightParen hc) eof n errors).trans <| .next (step_forStep_close hc) (.refl _)

theorem reads_forLoop {keyword : Terminal .for} {opening : Terminal .leftParen}
    {initializer : Derivation .initializer} {test : Derivation .optional}
    {semicolon : Terminal .semicolon} {step : Derivation .optional}
    {closing : Terminal .rightParen} {body : Derivation .statement} (hi : Reads initializer)
    (ht : Reads test) (hp : Reads step) (hb : Reads body) :
    Reads (.forLoop keyword opening initializer test semicolon step closing body) := by
  intro k rest hn eof n errors
  simp only [Derivation.tokens, List.cons_append, List.append_assoc]
  exact .next (step_statement_for keyword.2) <| .next (step_forOpen opening.2) <|
    (hi k _ eof n errors).trans <| (leads_forTest ht semicolon.2 _ _ _ _ _ _).trans <|
    (leads_forStep hp closing.2 _ _ _ _ _ _ _).trans <| (hb _ rest hn eof _ errors).trans <|
    .next rfl (.refl _)

theorem reads_ifThen {keyword : Terminal .if} {opening : Terminal .leftParen}
    {test : Derivation (.expression .assignment)} {closing : Terminal .rightParen}
    {thenBranch : Derivation .statement} (ht : Reads test) (hb : Reads thenBranch) :
    Reads (.ifThen keyword opening test closing thenBranch) := by
  intro k rest hn eof n errors
  -- an `else` behind it would belong to this `if`
  have last : firstKind rest ≠ .else := (firstKind_ne_iff (by decide)).2 hn.2
  simp only [Derivation.tokens, List.cons_append, List.append_assoc]
  exact .next (step_statement_if keyword.2) <| .next (step_ifOpen opening.2) <|
    (ht _ _ (stops_rightParen closing.2) eof n errors).trans <|
    .next (step_ifTest_close closing.2) <| (hb _ rest hn.1 eof _ errors).trans <|
    .next (step_thenBranch_left last) (.refl _)

theorem reads_ifElse {keyword : Terminal .if} {opening : Terminal .leftParen}
    {test : Derivation (.expression .assignment)} {closing : Terminal .rightParen}
    {thenBranch : Derivation .statement} {otherwise : Terminal .else}
    {elseBranch : Derivation .statement} (ht : Reads test) (hb : Reads thenBranch)
    (he : Reads elseBranch) :
    Reads (.ifElse keyword opening test closing thenBranch otherwise elseBranch) := by
  intro k rest hn eof n errors
  simp only [Derivation.tokens, List.cons_append, List.append_assoc]
  exact .next (step_statement_if keyword.2) <| .next (step_ifOpen opening.2) <|
    (ht _ _ (stops_rightParen closing.2) eof n errors).trans <|
    .next (step_ifTest_close closing.2) <| (hb _ _ hn.1 eof _ errors).trans <|
    .next (step_thenBranch_else otherwise.2) <| (he _ rest hn.2 eof _ errors).trans <|
    .next rfl (.refl _)

theorem reads_print {keyword : Terminal .print} {e : Derivation (.expression .assignment)}
    {semicolon : Terminal .semicolon} (he : Reads e) : Reads (.print keyword e semicolon) := by
  intro k rest _ eof n errors
  simp only [Derivation.tokens, List.cons_append, List.append_assoc, List.nil_append]
  exact .next (step_statement_print keyword.2) <|
    (he _ _ (stops_semicolon semicolon.2) eof n errors).trans <|
    .next (step_print_end semicolon.2) (.refl _)

theorem reads_return {keyword : Terminal .return} {value : Derivation .optional}
    {semicolon : Terminal .semicolon} (hv : Reads value) :
    Reads (.return keyword value semicolon) := by
  intro k rest _ eof n errors
  cases value with
  | absent =>
    exact .next (step_statement_return keyword.2) <|
      .next (step_returnValue_none semicolon.2) (.refl _)
  | present e =>
    have first := starts_tokens e (semicolon.1 :: rest)
    simp only [Derivation.tokens, List.cons_append, List.append_assoc, List.nil_append]
    exact .next (step_statement_return keyword.2) <|
      .next (step_returnValue_left (firstKind_ne first rfl)) <|
      (hv _ _ (stops_semicolon semicolon.2) eof n errors).trans <|
      .next (step_return_end semicolon.2) (.refl _)

theorem reads_while {keyword : Terminal .while} {opening : Terminal .leftParen}
    {test : Derivation (.expression .assignment)} {closing : Terminal .rightParen}
    {body : Derivation .statement} (ht : Reads test) (hb : Reads body) :
    Reads (.while keyword opening test closing body) := by
  intro k rest hn eof n errors
  simp only [Derivation.tokens, List.cons_append, List.append_assoc]
  exact .next (step_statement_while keyword.2) <| .next (step_whileOpen opening.2) <|
    (ht _ _ (stops_rightParen closing.2) eof n errors).trans <|
    .next (step_whileTest_close closing.2) <| (hb _ rest hn eof _ errors).trans <|
    .next rfl (.refl _)

theorem reads_statementOfBlock {b : Derivation .block} (hb : Reads b) :
    Reads (.statementOfBlock b) := hb.1

theorem reads_block {opening : Terminal .leftBrace} {body : Derivation .declarations}
    {closing : Terminal .rightBrace} (hb : Reads body) : Reads (.block opening body closing) := by
  constructor
  · intro k rest hn eof n errors
    have inner := hb.1 [] (.block k) (closing.1 :: rest) hn eof n errors
    simp only [Derivation.tokens, List.cons_append, List.append_assoc, List.nil_append]
    refine .next (step_statement_block opening.2) <| inner.trans <|
      .next (step_declarations_close closing.2) <| .next rfl ?_
    simpa using .refl _
  · intro c name params k rest hn eof n errors
    have inner := hb.1 [] (.functionBody name params k) (closing.1 :: rest) hn eof n errors
    simp only [Derivation.tokens, List.cons_append, List.append_assoc, List.nil_append]
    refine .next (step_callableBody opening.2) <| inner.trans <|
      .next (step_declarations_close closing.2) <| .next rfl ?_
    simpa using .refl _

/-! ## Declarations -/

theorem reads_declarationOfStatement {s : Derivation .statement} (hs : Reads s) :
    Reads (.declarationOfStatement s) := by
  intro k rest hn eof n errors
  have first := starts_tokens s rest
  have left : ∀ kind, Phrase.statement.starts kind = false → firstKind (s.tokens ++ rest) ≠ kind := by
    rintro kind h rfl
    rw [first] at h
    cases h
  exact .next (step_declaration_left (left _ rfl) (left _ rfl) (left _ rfl)) <|
    hs k rest hn eof n errors

theorem reads_declarationOfVariable {v : Derivation .varDeclaration} (hv : Reads v) :
    Reads (.declarationOfVariable v) := fun k rest _ => hv.1 k rest

theorem reads_noDeclarations : Reads .noDeclarations :=
  ⟨fun _ _ _ _ _ _ _ => .refl _, fun _ _ _ _ _ _ => .refl _⟩

/-- The first token of a declaration, which is not the brace that ends a list of them. -/
theorem exists_first_token (d : Derivation .declaration) :
    ∃ t ts, d.tokens = t :: ts ∧ t.kind ≠ .rightBrace := by
  have first := starts_tokens d []
  cases h : d.tokens with
  | nil =>
    rw [h] at first
    cases first
  | cons t ts =>
    refine ⟨t, ts, rfl, fun brace => ?_⟩
    rw [h, List.append_nil, firstKind, brace] at first
    cases first

theorem reads_declarations {first : Derivation .declaration} {others : Derivation .declarations}
    (hf : Reads first) (ho : Reads others) : Reads (.declarations first others) := by
  -- the list goes on, because a declaration does not start with its closing brace
  obtain ⟨t, ts, ht, hb⟩ := exists_first_token first
  constructor
  · intro done k rest hn eof n errors
    have head := hf (.declarations done k) (others.tokens ++ rest) hn.1 eof n errors
    have tail := ho.1 ((first.tree n).1 :: done) k rest hn.2 eof (first.tree n).2 errors
    simp only [Derivation.tokens, Derivation.tree, List.append_assoc, ht, List.cons_append,
      List.reverse_cons, List.nil_append] at head tail ⊢
    exact .next (step_declarations_more hb) <| head.trans <| .next rfl tail
  · intro done rest hn eof n errors
    have head := hf (.program done) (others.tokens ++ rest) hn.1 eof n errors
    have tail := ho.2 ((first.tree n).1 :: done) rest hn.2 eof (first.tree n).2 errors
    simp only [Derivation.tokens, Derivation.tree, List.append_assoc, ht, List.cons_append,
      List.reverse_cons, List.nil_append] at head tail ⊢
    exact .next rfl <| head.trans <| .next rfl tail

theorem reads_functionDeclaration {keyword : Terminal .fun} {f : Derivation .function}
    (hf : Reads f) : Reads (.functionDeclaration keyword f) := by
  intro k rest hn eof n errors
  exact .next (step_declaration_fun keyword.2) <| (hf .function _ rest hn eof n errors).trans <|
    .next rfl (.refl _)

theorem reads_classDeclaration {keyword : Terminal .class} {name : Terminal .identifier}
    {opening : Terminal .leftBrace} {methods : Derivation .functions}
    {closing : Terminal .rightBrace} (hm : Reads methods) :
    Reads (.classDeclaration keyword name opening methods closing) := by
  intro k rest hn eof n errors
  have inner := hm name [] k (closing.1 :: rest) hn eof n errors
  simp only [Derivation.tokens, List.cons_append, List.append_assoc, List.nil_append]
  refine .next (step_declaration_class keyword.2) <| .next (step_className name.2) <|
    .next (step_classOpen opening.2) <| inner.trans <| .next (step_methods_close closing.2) ?_
  simpa using .refl _

/-- The parameters behind the first are read up to the closing parenthesis. -/
theorem leads_parameterEnd (c : Callable) (name : Token) (k : Pending .function)
    {closing : Token} (hc : closing.kind = .rightParen) (rest : List Token) (eof : Token) (n : Nat)
    (errors : List StaticError) (others : List (Terminal .comma × Terminal .identifier))
    (done : List Token) (hn : done.length + others.length ≤ maxArity) :
    Leads ⟨.parameterEnd c name done k,
        (others.flatMap fun (comma, name) => [comma.1, name.1]) ++ closing :: rest, eof, n, errors⟩
      ⟨.callableBody c name (done.reverse ++ others.map fun (_, name) => name.1) k, rest, eof, n,
        errors⟩ := by
  induction others generalizing done with
  | nil => exact .next (step_parameterEnd_close hc) (by simpa using .refl _)
  | cons other others ih =>
    obtain ⟨comma, param⟩ := other
    have next := ih (param.1 :: done) (by simp only [List.length_cons] at *; omega)
    simp only [List.flatMap_cons, List.map_cons, List.reverse_cons, List.append_assoc,
      List.cons_append, List.nil_append] at next ⊢
    refine .next (step_parameterEnd_comma comma.2) <| .next (step_parameter param.2 ?_) next
    simp only [List.length_cons] at hn
    omega

theorem leads_parameters (c : Callable) (name : Token) (k : Pending .function) {closing : Token}
    (hc : closing.kind = .rightParen) (rest : List Token) (eof : Token) (n : Nat)
    (errors : List StaticError) (params : Parameters) (hn : params.names.length ≤ maxArity) :
    Leads ⟨.parameters c name k, params.tokens ++ closing :: rest, eof, n, errors⟩
      ⟨.callableBody c name params.names k, rest, eof, n, errors⟩ := by
  cases params with
  | none => exact .next (step_parameters_close hc) (.refl _)
  | some first others =>
    have left : firstKind ((Parameters.some first others).tokens ++ closing :: rest) ≠
        .rightParen := by
      simp [Parameters.tokens, firstKind, first.2]
    refine .next (step_parameters_left left) <| .next (step_parameter first.2 (by decide)) ?_
    refine leads_parameterEnd c name k hc rest eof n errors others [first.1] ?_
    simpa [Parameters.names, Nat.add_comm] using hn

theorem reads_function {name : Terminal .identifier} {opening : Terminal .leftParen}
    {params : Parameters} {closing : Terminal .rightParen} {body : Derivation .block}
    (hb : Reads body) (hn : params.names.length ≤ maxArity) :
    Reads (.function name opening params closing body) := by
  intro c k rest hr eof n errors
  simp only [Derivation.tokens, List.cons_append, List.append_assoc]
  exact .next (step_callableName name.2) <| .next (step_callableOpen opening.2) <|
    (leads_parameters c name k closing.2 _ eof n errors params hn).trans <|
    hb.2 c name params.names k rest hr eof n errors

theorem reads_noFunctions : Reads .noFunctions := fun _ _ _ _ _ _ _ _ => .refl _

theorem reads_functions {first : Derivation .function} {others : Derivation .functions}
    (hf : Reads first) (ho : Reads others) : Reads (.functions first others) := by
  intro name done k rest hn eof n errors
  have head := hf .method (.method name done k) (others.tokens ++ rest) hn.1 eof n errors
  have tail := ho name ((first.tree n).1 :: done) k rest hn.2 eof (first.tree n).2 errors
  cases first with
  | function f opening params closing body =>
    have more : f.1.kind ≠ .rightBrace := by
      rw [f.2]
      decide
    simp only [Derivation.tokens, Derivation.tree, List.append_assoc, List.cons_append,
      List.reverse_cons, List.nil_append] at head tail ⊢
    exact .next (step_methods_more more) <| head.trans <| .next rfl tail

/-! ## Every derivation -/

/-- The parser reads every bounded derivation wherever its phrase is looked for. -/
theorem reads {p : Phrase} (d : Derivation p) (hb : d.Bounded) : Reads d := by
  induction d with
  | literal t l h => exact reads_literal t l h
  | identifier name => exact reads_identifier name
  | group opening inner closing ih => exact reads_group (ih hb)
  | callOfPrimary e ih => exact reads_callOfPrimary (ih hb)
  | callNone callee opening closing ih => exact reads_callNone (ih hb)
  | callSome callee opening args closing hf ha =>
    exact reads_callSome (hf hb.1) (ha hb.2.1) hb.2.2
  | get object dot name ih => exact reads_get (ih hb)
  | unaryOfCall e ih => exact reads_unaryOfCall (ih hb)
  | prefixed op right ih => exact reads_prefixed (ih hb)
  | binaryOfOperand l e ih => exact reads_binaryOfOperand (ih hb)
  | binary l left op right hl hr => exact reads_binary (hl hb.1) (hr hb.2)
  | assignmentOfOr e ih => exact reads_assignmentOfOr (ih hb)
  | assign name equals value ih => exact reads_assign (ih hb)
  | set object dot name equals value ho hv => exact reads_set (ho hb.1) (hv hb.2)
  | lastArgument e ih => exact reads_lastArgument (ih hb)
  | argument e comma others he ho => exact reads_argument (he hb.1) (ho hb.2)
  | absent => trivial
  | present e ih => exact reads_present (ih hb)
  | uninitialized keyword name semicolon => exact reads_uninitialized
  | initialized keyword name equals value semicolon ih => exact reads_initialized (ih hb)
  | expressionStatement e semicolon ih => exact reads_expressionStatement (ih hb)
  | noInitializer semicolon => exact reads_noInitializer
  | variableInitializer v ih => exact reads_variableInitializer (ih hb)
  | expressionInitializer e ih => exact reads_expressionInitializer (ih hb)
  | statementOfExpression e ih => exact reads_statementOfExpression (ih hb)
  | forLoop keyword opening initializer test semicolon step closing body hi ht hs hs' =>
    exact reads_forLoop (hi hb.1) (ht hb.2.1) (hs hb.2.2.1) (hs' hb.2.2.2)
  | ifThen keyword opening test closing thenBranch hc ht => exact reads_ifThen (hc hb.1) (ht hb.2)
  | ifElse keyword opening test closing thenBranch otherwise elseBranch hc ht he =>
    exact reads_ifElse (hc hb.1) (ht hb.2.1) (he hb.2.2)
  | print keyword e semicolon ih => exact reads_print (ih hb)
  | «return» keyword value semicolon ih => exact reads_return (ih hb)
  | «while» keyword opening test closing body hc hs => exact reads_while (hc hb.1) (hs hb.2)
  | statementOfBlock b ih => exact reads_statementOfBlock (ih hb)
  | block opening body closing ih => exact reads_block (ih hb)
  | noDeclarations => exact reads_noDeclarations
  | declarations first others hf ho => exact reads_declarations (hf hb.1) (ho hb.2)
  | declarationOfStatement s ih => exact reads_declarationOfStatement (ih hb)
  | declarationOfVariable v ih => exact reads_declarationOfVariable (ih hb)
  | functionDeclaration keyword f ih => exact reads_functionDeclaration (ih hb)
  | classDeclaration keyword name opening methods closing ih =>
    exact reads_classDeclaration (ih hb)
  | function name opening params closing body ih => exact reads_function (ih hb.2) hb.1
  | noFunctions => exact reads_noFunctions
  | functions first others hf ho => exact reads_functions (hf hb.1) (ho hb.2)

/-! ## Whole programs -/

theorem kind_terminal {kind : Kind} (t : Terminal kind) : t.1.kind = kind := t.2

theorem kind_operator_ne_eof {l : Level} (op : Operator l) : op.1.kind ≠ .eof := by
  intro h
  have := op.2
  rw [h, admits_eof] at this
  cases this

theorem kind_literal_ne_eof {t : Token} {l : Literal} (h : literal? t.kind = some l) :
    t.kind ≠ .eof := by
  intro he
  rw [he] at h
  cases h

theorem kind_prefix_ne_eof (op : PrefixOperator) : op.1.kind ≠ .eof := by
  rcases op.2 with h | h <;> simp [h]

theorem Parameters.kind_ne_eof (params : Parameters) : ∀ t ∈ params.tokens, t.kind ≠ .eof := by
  intro t ht
  cases params with
  | none => cases ht
  | some first others =>
    simp only [tokens, List.mem_cons, List.mem_flatMap, List.not_mem_nil, or_false] at ht
    rcases ht with rfl | ⟨⟨comma, name⟩, -, rfl | rfl⟩ <;> simp [kind_terminal]

/-- No rule of the grammar has the end of the source in it. -/
theorem kind_ne_eof {p : Phrase} (d : Derivation p) : ∀ t ∈ d.tokens, t.kind ≠ .eof := by
  induction d with
  | literal t l h => simpa using kind_literal_ne_eof h
  | prefixed op right ih => simpa using ⟨kind_prefix_ne_eof op, ih⟩
  | binary l left op right hl hr =>
    simp only [Derivation.tokens, List.forall_mem_append, List.forall_mem_cons]
    exact ⟨hl, kind_operator_ne_eof op, hr⟩
  | function name opening params closing body ih =>
    simp only [Derivation.tokens, List.forall_mem_append, List.forall_mem_cons, kind_terminal]
    exact ⟨⟨by decide, by decide, params.kind_ne_eof⟩, by decide, ih⟩
  | _ =>
    simp only [Derivation.tokens, List.forall_mem_append, List.forall_mem_cons, kind_terminal,
      List.not_mem_nil, ne_eq, reduceCtorEq, not_false_eq_true, true_and, and_true, and_assoc,
      false_implies, implies_true]
    try simp_all only [and_self, ne_eq, not_false_eq_true, implies_true]

/-- The end of the source ends the tokens in front of it. -/
theorem takeWhile_append_eof {ts : List Token} (h : ∀ t ∈ ts, t.kind ≠ .eof) {eof : Token}
    (he : eof.kind = .eof) : (ts ++ [eof]).takeWhile (·.kind != .eof) = ts := by
  have keep : ∀ t ∈ ts, (t.kind != .eof) = true := fun t ht => bne_iff_ne.2 (h t ht)
  rw [List.takeWhile_append_of_pos keep]
  simp [he]

/-- A parse starts with the tokens in front of the first end of source, and with none behind it. -/
theorem start_append {ts : List Token} (h : ∀ t ∈ ts, t.kind ≠ .eof) {eof : Token}
    (he : eof.kind = .eof) (behind : List Token) (n : Nat) :
    State.start n (ts ++ eof :: behind) = ⟨.program [], ts, eof, n, []⟩ := by
  have keep : ∀ t ∈ ts, (t.kind != .eof) = true := fun t ht => bne_iff_ne.2 (h t ht)
  have found : (ts ++ eof :: behind).find? (·.kind == .eof) = some eof := by
    rw [List.find?_append, List.find?_eq_none.2 (by simpa using h)]
    simp [he]
  simp [State.start, List.takeWhile_append_of_pos keep, he, found]

theorem start_append_eof {ts : List Token} (h : ∀ t ∈ ts, t.kind ≠ .eof) {eof : Token}
    (he : eof.kind = .eof) (n : Nat) :
    State.start n (ts ++ [eof]) = ⟨.program [], ts, eof, n, []⟩ := start_append h he [] n

/-- The parser accepts the tokens of every derivation of a program in which no list is too long and
every `else` belongs to the nearest `if`, and makes its tree of them. -/
theorem program_tokens (d : Derivation .declarations) (hb : d.Bounded) (hn : d.Nearest [])
    (eof : Token) (he : eof.kind = .eof) (n : Nat) :
    program n (d.tokens ++ [eof]) = ⟨.ok (d.tree n).1, (d.tree n).2⟩ := by
  have passes := (reads d hb).2 [] [] hn eof n []
  simp only [List.append_nil] at passes
  rw [← start_append_eof (kind_ne_eof d) he] at passes
  have finished := program_of_leads passes
  rwa [List.reverse_reverse] at finished

end Lox.Grammar
