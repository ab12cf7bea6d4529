/-
The parser reads nothing but derivations. On the way of a parse that ends without errors, every task
that looks for a phrase reads the tokens of a bounded derivation of it and hands over its tree
(`sound`, by induction along the parse, with one lemma a task). The tasks inside a phrase say how
what was read before them is completed: `giveExpression` under `operators` and `trailers` extends a
derivation by what follows it, `declarations` and `methods` go on to the closing brace.
-/
import Lox.Proofs.Grammar.Clean
import Lox.Proofs.Grammar.Complete

namespace Lox.Grammar

open Parse Parse.State

/-! ## What a task reads -/

/-- The tokens read before and those that the parser reads from the state on are the tokens of one
derivation, whose ids start at `n`; the parse goes on with what `next` makes of its tree. -/
def Completes (before : List Token) (n : Nat) {p : Phrase} (s : State) (next : p.Tree → Task) :
    Prop :=
  ∃ (d : Derivation p) (rest : List Token),
    before ++ s.rest = d.tokens ++ rest ∧ d.Bounded ∧ d.Nearest rest ∧
      Leads s ⟨next (d.tree n).1, rest, s.eof, (d.tree n).2, s.errors⟩

/-- The parser reads a derivation. -/
def Finds {p : Phrase} (s : State) (next : p.Tree → Task) : Prop :=
  ∃ (d : Derivation p) (rest : List Token),
    s.rest = d.tokens ++ rest ∧ d.Bounded ∧ d.Nearest rest ∧
      Leads s ⟨next (d.tree s.nextId).1, rest, s.eof, (d.tree s.nextId).2, s.errors⟩

/-- The parser reads a derivation and a token of the kind behind it. -/
def FindsUpTo (closing : Kind) {p : Phrase} (s : State) (next : p.Tree → Task) : Prop :=
  ∃ (d : Derivation p) (t : Terminal closing) (rest : List Token),
    s.rest = d.tokens ++ t.1 :: rest ∧ d.Bounded ∧ d.Nearest (t.1 :: rest) ∧
      Leads s ⟨next (d.tree s.nextId).1, rest, s.eof, (d.tree s.nextId).2, s.errors⟩

/-- What the tasks that stand for a phrase or a part of one read. -/
def Sound (s : State) : Prop :=
  match s.task with
  | .expression k => @Finds (.expression .assignment) s (.giveExpression · k)
  | .level l k => @Finds (.expression (.binary l)) s (.giveExpression · k)
  | .unary k => @Finds (.expression .unary) s (.giveExpression · k)
  | .primary k => @Finds (.expression .primary) s (.giveExpression · k)
  | .giveExpression e (.operators l k) =>
    ∀ (d : Derivation (.expression (.binary l))) (n : Nat), d.Bounded → d.tree n = (e, s.nextId) →
      @Completes d.tokens n (.expression (.binary l)) s (.giveExpression · k)
  | .giveExpression e (.trailers k) =>
    ∀ (d : Derivation (.expression .call)) (n : Nat), d.Bounded → d.tree n = (e, s.nextId) →
      @Completes d.tokens n (.expression .call) s (.giveExpression · k)
  | .argument callee done k =>
    ∃ (d : Derivation .arguments) (closing : Terminal .rightParen) (rest : List Token),
      s.rest = d.tokens ++ closing.1 :: rest ∧ d.Bounded ∧ done.length + d.arity ≤ maxArity ∧
        Leads s ⟨.giveExpression (.call callee closing (done.reverse ++ (d.tree s.nextId).1)) k,
          rest, s.eof, (d.tree s.nextId).2, s.errors⟩
  | .variableName k =>
    ∀ keyword : Terminal .var,
      @Completes [keyword.1] s.nextId .varDeclaration s (.giveStatement · k)
  | .statement k => @Finds .statement s (.giveStatement · k)
  | .forInitializer k => @Finds .initializer s (.forTest · k)
  | .forTest i k => @FindsUpTo .semicolon .optional s (.forStep i · k)
  | .forStep i x k => @FindsUpTo .rightParen .optional s fun y => .statement (.forBody i x y k)
  | .declaration k => @Finds .declaration s (.giveStatement · k)
  | .declarations done k =>
    @FindsUpTo .rightBrace .declarations s fun ss => .giveBody (done.reverse ++ ss) k
  | .program done =>
    ∃ d : Derivation .declarations, s.rest = d.tokens ∧ d.Bounded ∧ d.Nearest [] ∧
      Leads s ⟨.finished (done.reverse ++ (d.tree s.nextId).1), [], s.eof, (d.tree s.nextId).2,
        s.errors⟩
  | .methods name done k =>
    @FindsUpTo .rightBrace .functions s fun fs => .giveStatement (.class name (done.reverse ++ fs)) k
  | .callableName _ k => @Finds .function s (.giveFunction · k)
  | .parameter c name done k =>
    ∃ (first : Terminal .identifier) (others : List (Terminal .comma × Terminal .identifier))
      (closing : Terminal .rightParen) (rest : List Token),
      s.rest = (Parameters.some first others).tokens ++ closing.1 :: rest ∧
        done.length + (others.length + 1) ≤ maxArity ∧
        Leads s ⟨.callableBody c name (done.reverse ++ (Parameters.some first others).names) k, rest,
          s.eof, s.nextId, s.errors⟩
  | _ => True

/-- All states behind the state are sound. -/
def Behind (s : State) : Prop := ∀ t, Leads s.step t → Sound t

section

variable {t : Token} {ts : List Token} {eof : Token} {n : Nat} {errors : List StaticError}
  {k : Pending .statement} {kx : Pending .expression} {kb : Pending .body} {kf : Pending .function}
  {e : Expr} {es : List Expr} {done : List Stmt} {name : Token} {c : Callable}
  {l : Level} {i : Option Stmt} {x : Option Expr} {fs : List Function} {ps : List Token}

/-- A list whose first token is of a kind is not empty, unless it is the end of the source. -/
theorem exists_cons_of_firstKind {kind : Kind} (h : firstKind ts = kind) (hk : kind ≠ .eof) :
    ∃ t ts', ts = t :: ts' ∧ t.kind = kind := by
  cases ts with
  | nil => exact absurd h.symm hk
  | cons t ts => exact ⟨t, ts, rfl, h⟩

/-! ## Expressions -/

theorem step_argument_left {f : Expr} (h : firstKind ts ≠ .comma) :
    step ⟨.giveExpression e (.argument f es kx), ts, eof, n, errors⟩ =
      require ⟨.giveExpression e (.argument f es kx), ts, eof, n, errors⟩ .rightParen
        .argumentsClose kx fun paren => .giveExpression (.call f paren (e :: es).reverse) kx := by
  simp [step, giveExpression, look_eq]

theorem step_primary_missing (hl : literal? t.kind = none) (hi : t.kind ≠ .identifier)
    (hp : t.kind ≠ .leftParen) :
    step ⟨.primary kx, t :: ts, eof, n, errors⟩ =
      missing ⟨.primary kx, t :: ts, eof, n, errors⟩ .expression kx := by
  unfold literal? at hl
  simp only [step, primary, look]
  split <;> simp_all

theorem sound_primary (h : Clean ⟨.primary kx, ts, eof, n, errors⟩)
    (ih : Behind ⟨.primary kx, ts, eof, n, errors⟩) : Sound ⟨.primary kx, ts, eof, n, errors⟩ := by
  have next := h.to_step
  cases ts with
  | nil => exact absurd next (Clean.not_fail kx rfl)
  | cons t ts =>
    cases hv : literal? t.kind with
    | some v =>
      exact ⟨.literal t v hv, ts, rfl, trivial, trivial, .next (step_primary_literal hv) (.refl _)⟩
    | none =>
      by_cases ht : t.kind = .identifier
      · exact ⟨.identifier ⟨t, ht⟩, ts, rfl, trivial, trivial,
          .next (step_primary_identifier ht) (.refl _)⟩
      by_cases hp : t.kind = .leftParen
      · have l : Leads (step ⟨.primary kx, t :: ts, eof, n, errors⟩) _ :=
          .of_eq (step_primary_group hp)
        obtain ⟨inner, rest, rfl, hb, -, li⟩ := ih _ l
        replace l := l.trans li
        obtain ⟨closing, rest, rfl, hc⟩ := (h.to_step.of_leads l).required rfl
        exact ⟨.group ⟨t, hp⟩ inner ⟨closing, hc⟩, rest, by simp, hb, trivial,
          .step (l.trans (.next (step_group_close hc) (.refl _)))⟩
      · rw [step_primary_missing hv ht hp] at next
        exact absurd next (Clean.not_fail kx rfl)

theorem sound_argument (h : Clean ⟨.argument e es kx, ts, eof, n, errors⟩)
    (ih : Behind ⟨.argument e es kx, ts, eof, n, errors⟩) :
    Sound ⟨.argument e es kx, ts, eof, n, errors⟩ := by
  -- with the list full an error would have been noted
  have fits : es.length < maxArity := Nat.lt_of_not_le fun hl => by
    have noted := h.to_step.errors_eq
    simp [step, hl, goTo, note] at noted
  have l : Leads (step ⟨.argument e es kx, ts, eof, n, errors⟩) _ := .of_eq (step_argument fits)
  obtain ⟨a, rest, rfl, hb, -, la⟩ := ih _ l
  replace l := l.trans la
  by_cases hc : firstKind rest = .comma
  · obtain ⟨comma, rest, rfl, hc⟩ := exists_cons_of_firstKind hc (by decide)
    replace l := l.trans (.next (step_argument_comma hc) (.refl _))
    obtain ⟨others, closing, rest, rfl, ho, hl, lo⟩ := ih _ l
    refine ⟨.argument a ⟨comma, hc⟩ others, closing, rest, by simp, ⟨hb, ho⟩, ?_, .step ?_⟩
    · simp only [List.length_cons, Derivation.arity] at hl ⊢
      omega
    · simpa using l.trans lo
  · obtain ⟨closing, rest, rfl, hp⟩ := (h.to_step.of_leads l).required (step_argument_left hc)
    refine ⟨.lastArgument a, ⟨closing, hp⟩, rest, rfl, hb, fits, .step (l.trans ?_)⟩
    exact .next (step_argument_close hp) (by simpa using .refl _)

theorem sound_trailers (h : Clean ⟨.giveExpression e (.trailers kx), ts, eof, n, errors⟩)
    (ih : Behind ⟨.giveExpression e (.trailers kx), ts, eof, n, errors⟩) :
    Sound ⟨.giveExpression e (.trailers kx), ts, eof, n, errors⟩ := by
  intro d m hd hm
  have hn : (d.tree m).2 = n := congrArg Prod.snd hm
  obtain rfl : (d.tree m).1 = e := congrArg Prod.fst hm
  by_cases hp : firstKind ts = .leftParen
  · obtain ⟨opening, ts, rfl, hp⟩ := exists_cons_of_firstKind hp (by decide)
    have l : Leads (step ⟨.giveExpression (d.tree m).1 (.trailers kx), opening :: ts, eof, n,
      errors⟩) _ := .of_eq (step_trailers_call hp)
    by_cases hc : firstKind ts = .rightParen
    · obtain ⟨closing, ts, rfl, hc⟩ := exists_cons_of_firstKind hc (by decide)
      replace l := l.trans (.next (step_arguments_close hc) (.refl _))
      obtain ⟨d', rest, hr, hb, hd', l'⟩ :=
        ih _ l (.callNone d ⟨opening, hp⟩ ⟨closing, hc⟩) m hd (by simp [hn])
      exact ⟨d', rest, by simpa using hr, hb, hd', .step (l.trans l')⟩
    · replace l := l.trans (.next (step_arguments_left hc) (.refl _))
      obtain ⟨args, closing, rest, rfl, ha, hl, la⟩ := ih _ l
      replace l := l.trans la
      obtain ⟨d', rest, hr, hb, hd', l'⟩ :=
        ih _ l (.callSome d ⟨opening, hp⟩ args closing) m ⟨hd, ha, by simpa using hl⟩
          (by simp [hn])
      exact ⟨d', rest, by simpa using hr, hb, hd', .step (l.trans l')⟩
  by_cases ht : firstKind ts = .dot
  · obtain ⟨dot, ts, rfl, ht⟩ := exists_cons_of_firstKind ht (by decide)
    have l : Leads (step ⟨.giveExpression (d.tree m).1 (.trailers kx), dot :: ts, eof, n,
      errors⟩) _ := .of_eq (step_trailers_dot ht)
    obtain ⟨name, ts, rfl, hi⟩ := (h.to_step.of_leads l).required rfl
    replace l := l.trans (.next (step_property hi) (.refl _))
    obtain ⟨d', rest, hr, hb, hd', l'⟩ := ih _ l (.get d ⟨dot, ht⟩ ⟨name, hi⟩) m hd (by simp [hn])
    exact ⟨d', rest, by simpa using hr, hb, hd', .step (l.trans l')⟩
  · refine ⟨d, ts, rfl, hd, d.nearest_expression _, .next (step_trailers_left hp ht) ?_⟩
    rw [hn]
    exact .refl _

theorem sound_unary (h : Clean ⟨.unary kx, ts, eof, n, errors⟩)
    (ih : Behind ⟨.unary kx, ts, eof, n, errors⟩) : Sound ⟨.unary kx, ts, eof, n, errors⟩ := by
  by_cases ho : firstKind ts = .bang ∨ firstKind ts = .minus
  · have : ∃ t ts', ts = t :: ts' ∧ (t.kind = .bang ∨ t.kind = .minus) := by
      cases ts with
      | nil => simp [firstKind] at ho
      | cons t ts => exact ⟨t, ts, rfl, ho⟩
    obtain ⟨op, ts, rfl, ho⟩ := this
    have l : Leads (step ⟨.unary kx, op :: ts, eof, n, errors⟩) _ :=
      .of_eq (step_unary_operator ho)
    obtain ⟨right, rest, rfl, hb, -, lr⟩ := ih _ l
    exact ⟨.prefixed ⟨op, ho⟩ right, rest, rfl, hb, trivial,
      .step ((l.trans lr).trans (.next rfl (.refl _)))⟩
  · rw [not_or] at ho
    have l : Leads (step ⟨.unary kx, ts, eof, n, errors⟩) _ := .of_eq (step_unary_left ho.1 ho.2)
    obtain ⟨first, rest, rfl, hf, -, lf⟩ := ih _ l
    replace l := l.trans lf
    obtain ⟨d, rest, hr, hb, -, ld⟩ := ih _ l (.callOfPrimary first) n hf rfl
    exact ⟨.unaryOfCall d, rest, hr, hb, trivial, .step (l.trans ld)⟩

theorem sound_operandTask {l : Level}
    (h : Sound ⟨operandTask l kx, ts, eof, n, errors⟩) :
    @Finds (.expression (operandRank l)) ⟨operandTask l kx, ts, eof, n, errors⟩
      (.giveExpression · kx) := by
  cases l <;> exact h

theorem sound_level (ih : Behind ⟨.level l kx, ts, eof, n, errors⟩) :
    Sound ⟨.level l kx, ts, eof, n, errors⟩ := by
  have s : Leads (step ⟨.level l kx, ts, eof, n, errors⟩) _ := .of_eq rfl
  -- one operand is read, and what follows extends it
  obtain ⟨first, rest, rfl, hf, -, lf⟩ := sound_operandTask (ih _ s)
  obtain ⟨d, rest, hr, hb, hd, ld⟩ := ih _ (s.trans lf) (.binaryOfOperand l first) n hf rfl
  exact ⟨d, rest, hr, hb, hd, .step ((s.trans lf).trans ld)⟩

theorem sound_operators (ih : Behind ⟨.giveExpression e (.operators l kx), ts, eof, n, errors⟩) :
    Sound ⟨.giveExpression e (.operators l kx), ts, eof, n, errors⟩ := by
  intro d m hd hm
  have hn : (d.tree m).2 = n := congrArg Prod.snd hm
  obtain rfl : (d.tree m).1 = e := congrArg Prod.fst hm
  cases ho : l.admits (firstKind ts) with
  | true =>
    cases ts with
    | nil => simp [firstKind, admits_eof] at ho
    | cons op ts =>
      have s : Leads (step ⟨.giveExpression (d.tree m).1 (.operators l kx), op :: ts, eof, n,
        errors⟩) _ := .of_eq (step_operators_take ho)
      obtain ⟨right, rest, rfl, hr, -, lr⟩ := sound_operandTask (ih _ s)
      replace s := (s.trans lr).trans (.next step_rightOperand (.refl _))
      obtain ⟨d', rest, hr', hb, hd', l'⟩ :=
        ih _ s (.binary l d ⟨op, ho⟩ right) m ⟨hd, hr⟩ (by simp [hn])
      exact ⟨d', rest, by simpa using hr', hb, hd', .step (s.trans l')⟩
  | false =>
    refine ⟨d, ts, rfl, hd, d.nearest_expression _, .next (step_operators_left ho) ?_⟩
    rw [hn]
    exact .refl _

theorem operandRank_ne (l : Level) : operandRank l ≠ .assignment := by
  cases l <;> simp [operandRank, Level.tighter?]

/-- What derives a name alone is the name. -/
theorem tokens_of_variable : ∀ {r : Rank} (d : Derivation (.expression r)) {n id : Nat}
    {name : Token}, r ≠ .assignment → (d.tree n).1 = .variable id name →
      d.tokens = [name] ∧ name.kind = .identifier ∧ (d.tree n).2 = n + 1
  | _, .literal _ _ _, _, _, _, _, h => by cases h
  | _, .identifier name, _, _, _, _, h => by
    cases h
    exact ⟨rfl, name.2, rfl⟩
  | _, .group _ _ _, _, _, _, _, h => by cases h
  | _, .callOfPrimary e, _, _, _, _, h => tokens_of_variable e (by simp) h
  | _, .callNone _ _ _, _, _, _, _, h => by cases h
  | _, .callSome _ _ _ _, _, _, _, _, h => by cases h
  | _, .get _ _ _, _, _, _, _, h => by cases h
  | _, .unaryOfCall e, _, _, _, _, h => tokens_of_variable e (by simp) h
  | _, .prefixed _ _, _, _, _, _, h => by cases h
  | _, .binaryOfOperand l e, _, _, _, _, h => tokens_of_variable e (operandRank_ne l) h
  | _, .binary l _ _ _, _, _, _, _, h => by cases l <;> cases h
  | _, .assignmentOfOr _, _, _, _, ha, _ => absurd rfl ha
  | _, .assign _ _ _, _, _, _, ha, _ => absurd rfl ha
  | _, .set _ _ _ _ _, _, _, _, ha, _ => absurd rfl ha

/-- What derives the access to a property alone is a call, a dot and the name. -/
theorem exists_call_of_get : ∀ {r : Rank} (d : Derivation (.expression r)) {n : Nat} {object : Expr}
    {name : Token}, r ≠ .assignment → (d.tree n).1 = .get object name →
      ∃ (o : Derivation (.expression .call)) (dot : Terminal .dot) (name' : Terminal .identifier),
        name'.1 = name ∧ d.tokens = o.tokens ++ [dot.1, name] ∧
          o.tree n = (object, (d.tree n).2) ∧ (d.Bounded → o.Bounded)
  | _, .literal _ _ _, _, _, _, _, h => by cases h
  | _, .identifier _, _, _, _, _, h => by cases h
  | _, .group _ _ _, _, _, _, _, h => by cases h
  | _, .callOfPrimary e, _, _, _, _, h => exists_call_of_get e (by simp) h
  | _, .callNone _ _ _, _, _, _, _, h => by cases h
  | _, .callSome _ _ _ _, _, _, _, _, h => by cases h
  | _, .get o dot name, _, _, _, _, h => by
    cases h
    exact ⟨o, dot, name, rfl, rfl, rfl, id⟩
  | _, .unaryOfCall e, _, _, _, _, h => exists_call_of_get e (by simp) h
  | _, .prefixed _ _, _, _, _, _, h => by cases h
  | _, .binaryOfOperand l e, _, _, _, _, h => exists_call_of_get e (operandRank_ne l) h
  | _, .binary l _ _ _, _, _, _, _, h => by cases l <;> cases h
  | _, .assignmentOfOr _, _, _, _, ha, _ => absurd rfl ha
  | _, .assign _ _ _, _, _, _, ha, _ => absurd rfl ha
  | _, .set _ _ _ _ _, _, _, _, ha, _ => absurd rfl ha

theorem step_assigned_variable {id : Nat} {v : Expr} :
    step ⟨.giveExpression v (.assigned (.variable id name) t kx), ts, eof, n, errors⟩ =
      ⟨.giveExpression (.assign n name v) kx, ts, eof, n + 1, errors⟩ := rfl

theorem step_assigned_get {v : Expr} :
    step ⟨.giveExpression v (.assigned (.get e name) t kx), ts, eof, n, errors⟩ =
      ⟨.giveExpression (.set e name v) kx, ts, eof, n, errors⟩ := rfl

/-- Only a name or a property is assigned to without an error. -/
theorem target_of_clean {v : Expr}
    (h : Clean ⟨.giveExpression v (.assigned e t kx), ts, eof, n, errors⟩) :
    (∃ id name, e = .variable id name) ∨ ∃ object name, e = .get object name := by
  have noted := h.to_step.errors_eq
  cases e with
  | «variable» id name => exact .inl ⟨id, name, rfl⟩
  | get object name => exact .inr ⟨object, name, rfl⟩
  | _ => cases noted

theorem sound_expression (h : Clean ⟨.expression kx, ts, eof, n, errors⟩)
    (ih : Behind ⟨.expression kx, ts, eof, n, errors⟩) :
    Sound ⟨.expression kx, ts, eof, n, errors⟩ := by
  have l : Leads (step ⟨.expression kx, ts, eof, n, errors⟩) _ := .of_eq step_expression
  obtain ⟨d, rest, rfl, hd, -, ld⟩ := ih _ l
  replace l := l.trans ld
  by_cases he : firstKind rest = .equal
  · obtain ⟨equals, rest, rfl, he⟩ := exists_cons_of_firstKind he (by decide)
    replace l := l.trans (.next (step_assignment_take he) (.refl _))
    obtain ⟨value, rest, rfl, hv, -, lv⟩ := ih _ l
    replace l := l.trans lv
    -- only now the parser knows that what it read was a target
    rcases target_of_clean (h.to_step.of_leads l) with ⟨id, name, target⟩ | ⟨object, name, target⟩
    · have target' : (d.tree n).1 = .variable id name := target
      obtain ⟨ht, hn, hi⟩ := tokens_of_variable d (by simp) target'
      refine ⟨.assign ⟨name, hn⟩ ⟨equals, he⟩ value, rest, by simp [ht], hv, trivial, .step ?_⟩
      have := l.trans (.next (by rw [target, step_assigned_variable]) (.refl _))
      simpa [hi] using this
    · have target' : (d.tree n).1 = .get object name := target
      obtain ⟨o, dot, name, rfl, ht, ho, hb⟩ := exists_call_of_get d (by simp) target'
      refine ⟨.set o dot name ⟨equals, he⟩ value, rest, by simp [ht], ⟨hb hd, hv⟩, trivial,
        .step ?_⟩
      have := l.trans (.next (by rw [target, step_assigned_get]) (.refl _))
      simpa [ho] using this
  · exact ⟨.assignmentOfOr d, rest, rfl, hd, trivial,
      .step (l.trans (.next (step_assignment_left he) (.refl _)))⟩

/-! ## Statements -/

theorem step_variableValue_left (h : firstKind ts ≠ .equal) :
    step ⟨.variableValue name k, ts, eof, n, errors⟩ =
      require ⟨.variableValue name k, ts, eof, n, errors⟩ .semicolon .variableEnd k
        fun _ => .giveStatement (.var name none) k := by
  simp [step, look_eq]

theorem sound_variableName (h : Clean ⟨.variableName k, ts, eof, n, errors⟩)
    (ih : Behind ⟨.variableName k, ts, eof, n, errors⟩) :
    Sound ⟨.variableName k, ts, eof, n, errors⟩ := by
  intro keyword
  obtain ⟨name, ts, rfl, hn⟩ := h.required rfl
  have l : Leads (step ⟨.variableName k, name :: ts, eof, n, errors⟩) _ :=
    .of_eq (step_variableName hn)
  by_cases he : firstKind ts = .equal
  · obtain ⟨equals, ts, rfl, he⟩ := exists_cons_of_firstKind he (by decide)
    replace l := l.trans (.next (step_variableValue_equal he) (.refl _))
    obtain ⟨value, rest, rfl, hv, -, lv⟩ := ih _ l
    replace l := l.trans lv
    obtain ⟨semicolon, rest, rfl, hs⟩ := (h.to_step.of_leads l).required rfl
    exact ⟨.initialized keyword ⟨name, hn⟩ ⟨equals, he⟩ value ⟨semicolon, hs⟩, rest, by simp, hv,
      trivial, .step (l.trans (.next (step_initializer_end hs) (.refl _)))⟩
  · obtain ⟨semicolon, rest, rfl, hs⟩ :=
      (h.to_step.of_leads l).required (step_variableValue_left he)
    exact ⟨.uninitialized keyword ⟨name, hn⟩ ⟨semicolon, hs⟩, rest, rfl, trivial, trivial,
      .step (l.trans (.next (step_variableValue_end hs) (.refl _)))⟩

/-- Where an expression statement is looked for, one is read. -/
theorem finds_expressionStatement {s : State} (h : Clean s) (ih : Behind s)
    (l : Leads s.step ⟨.expression (.expressionStatement k), ts, eof, n, errors⟩) :
    ∃ (d : Derivation .expressionStatement) (rest : List Token), ts = d.tokens ++ rest ∧
      d.Bounded ∧ Leads s.step ⟨.giveStatement (d.tree n).1 k, rest, eof, (d.tree n).2, errors⟩ := by
  obtain ⟨e, rest, rfl, hb, -, le⟩ := ih _ l
  replace l := l.trans le
  obtain ⟨semicolon, rest, rfl, hs⟩ := (h.to_step.of_leads l).required rfl
  exact ⟨.expressionStatement e ⟨semicolon, hs⟩, rest, by simp, hb,
    l.trans (.next (step_expression_end hs) (.refl _))⟩

theorem sound_forInitializer (h : Clean ⟨.forInitializer k, ts, eof, n, errors⟩)
    (ih : Behind ⟨.forInitializer k, ts, eof, n, errors⟩) :
    Sound ⟨.forInitializer k, ts, eof, n, errors⟩ := by
  by_cases hs : firstKind ts = .semicolon
  · obtain ⟨semicolon, ts, rfl, hs⟩ := exists_cons_of_firstKind hs (by decide)
    exact ⟨.noInitializer ⟨semicolon, hs⟩, ts, rfl, trivial, trivial,
      .next (step_forInitializer_none hs) (.refl _)⟩
  by_cases hv : firstKind ts = .var
  · obtain ⟨keyword, ts, rfl, hv⟩ := exists_cons_of_firstKind hv (by decide)
    have l : Leads (step ⟨.forInitializer k, keyword :: ts, eof, n, errors⟩) _ :=
      .of_eq (step_forInitializer_var hv)
    obtain ⟨v, rest, hr, hb, -, lv⟩ := ih _ l ⟨keyword, hv⟩
    exact ⟨.variableInitializer v, rest, hr, hb, trivial,
      .step ((l.trans lv).trans (.next rfl (.refl _)))⟩
  · obtain ⟨e, rest, hr, hb, l⟩ :=
      finds_expressionStatement h ih (.of_eq (step_forInitializer_left hs hv))
    exact ⟨.expressionInitializer e, rest, hr, hb, trivial, .step (l.trans (.next rfl (.refl _)))⟩

theorem sound_forTest (h : Clean ⟨.forTest i k, ts, eof, n, errors⟩)
    (ih : Behind ⟨.forTest i k, ts, eof, n, errors⟩) :
    Sound ⟨.forTest i k, ts, eof, n, errors⟩ := by
  by_cases hs : firstKind ts = .semicolon
  · obtain ⟨semicolon, ts, rfl, hs⟩ := exists_cons_of_firstKind hs (by decide)
    exact ⟨.absent, ⟨semicolon, hs⟩, ts, rfl, trivial, trivial,
      .next (step_forTest_none hs) (.refl _)⟩
  · have l : Leads (step ⟨.forTest i k, ts, eof, n, errors⟩) _ := .of_eq (step_forTest_left hs)
    obtain ⟨test, rest, rfl, hb, -, lt⟩ := ih _ l
    replace l := l.trans lt
    obtain ⟨semicolon, rest, rfl, ht⟩ := (h.to_step.of_leads l).required rfl
    exact ⟨.present test, ⟨semicolon, ht⟩, rest, rfl, hb, trivial,
      .step (l.trans (.next (step_forTest_end ht) (.refl _)))⟩

theorem sound_forStep (h : Clean ⟨.forStep i x k, ts, eof, n, errors⟩)
    (ih : Behind ⟨.forStep i x k, ts, eof, n, errors⟩) :
    Sound ⟨.forStep i x k, ts, eof, n, errors⟩ := by
  by_cases hc : firstKind ts = .rightParen
  · obtain ⟨closing, ts, rfl, hc⟩ := exists_cons_of_firstKind hc (by decide)
    exact ⟨.absent, ⟨closing, hc⟩, ts, rfl, trivial, trivial,
      .next (step_forStep_none hc) (.refl _)⟩
  · have l : Leads (step ⟨.forStep i x k, ts, eof, n, errors⟩) _ := .of_eq (step_forStep_left hc)
    obtain ⟨step, rest, rfl, hb, -, lp⟩ := ih _ l
    replace l := l.trans lp
    obtain ⟨closing, rest, rfl, hp⟩ := (h.to_step.of_leads l).required rfl
    exact ⟨.present step, ⟨closing, hp⟩, rest, rfl, hb, trivial,
      .step (l.trans (.next (step_forStep_close hp) (.refl _)))⟩

theorem sound_for (ht : t.kind = .for) (h : Clean ⟨.statement k, t :: ts, eof, n, errors⟩)
    (ih : Behind ⟨.statement k, t :: ts, eof, n, errors⟩) :
    Sound ⟨.statement k, t :: ts, eof, n, errors⟩ := by
  have l : Leads (step ⟨.statement k, t :: ts, eof, n, errors⟩) _ := .of_eq (step_statement_for ht)
  obtain ⟨opening, ts, rfl, ho⟩ := (h.to_step.of_leads l).required rfl
  replace l := l.trans (.next (step_forOpen ho) (.refl _))
  obtain ⟨initializer, rest, rfl, hi, -, li⟩ := ih _ l
  replace l := l.trans li
  obtain ⟨test, semicolon, rest, rfl, htb, -, lt⟩ := ih _ l
  replace l := l.trans lt
  obtain ⟨step, closing, rest, rfl, hs, -, ls⟩ := ih _ l
  replace l := l.trans ls
  obtain ⟨body, rest, rfl, hb, hn, lb⟩ := ih _ l
  exact ⟨.forLoop ⟨t, ht⟩ ⟨opening, ho⟩ initializer test semicolon step closing body, rest,
    by simp, ⟨hi, htb, hs, hb⟩, hn, .step ((l.trans lb).trans (.next rfl (.refl _)))⟩

theorem sound_if (ht : t.kind = .if) (h : Clean ⟨.statement k, t :: ts, eof, n, errors⟩)
    (ih : Behind ⟨.statement k, t :: ts, eof, n, errors⟩) :
    Sound ⟨.statement k, t :: ts, eof, n, errors⟩ := by
  have l : Leads (step ⟨.statement k, t :: ts, eof, n, errors⟩) _ := .of_eq (step_statement_if ht)
  obtain ⟨opening, ts, rfl, ho⟩ := (h.to_step.of_leads l).required rfl
  replace l := l.trans (.next (step_ifOpen ho) (.refl _))
  obtain ⟨test, rest, rfl, htb, -, lt⟩ := ih _ l
  replace l := l.trans lt
  obtain ⟨closing, rest, rfl, hc⟩ := (h.to_step.of_leads l).required rfl
  replace l := l.trans (.next (step_ifTest_close hc) (.refl _))
  obtain ⟨thenBranch, rest, rfl, hb, hn, lb⟩ := ih _ l
  replace l := l.trans lb
  by_cases he : firstKind rest = .else
  · obtain ⟨otherwise, rest, rfl, he⟩ := exists_cons_of_firstKind he (by decide)
    replace l := l.trans (.next (step_thenBranch_else he) (.refl _))
    obtain ⟨elseBranch, rest, rfl, hb', hn', le⟩ := ih _ l
    exact ⟨.ifElse ⟨t, ht⟩ ⟨opening, ho⟩ test ⟨closing, hc⟩ thenBranch ⟨otherwise, he⟩ elseBranch,
      rest, by simp, ⟨htb, hb, hb'⟩, ⟨hn, hn'⟩, .step ((l.trans le).trans (.next rfl (.refl _)))⟩
  · exact ⟨.ifThen ⟨t, ht⟩ ⟨opening, ho⟩ test ⟨closing, hc⟩ thenBranch, rest, by simp, ⟨htb, hb⟩,
      ⟨hn, (firstKind_ne_iff (by decide)).1 he⟩,
      .step (l.trans (.next (step_thenBranch_left he) (.refl _)))⟩

theorem sound_print (ht : t.kind = .print) (h : Clean ⟨.statement k, t :: ts, eof, n, errors⟩)
    (ih : Behind ⟨.statement k, t :: ts, eof, n, errors⟩) :
    Sound ⟨.statement k, t :: ts, eof, n, errors⟩ := by
  have l : Leads (step ⟨.statement k, t :: ts, eof, n, errors⟩) _ :=
    .of_eq (step_statement_print ht)
  obtain ⟨e, rest, rfl, hb, -, le⟩ := ih _ l
  replace l := l.trans le
  obtain ⟨semicolon, rest, rfl, hs⟩ := (h.to_step.of_leads l).required rfl
  exact ⟨.print ⟨t, ht⟩ e ⟨semicolon, hs⟩, rest, by simp, hb, trivial,
    .step (l.trans (.next (step_print_end hs) (.refl _)))⟩

theorem sound_return (ht : t.kind = .return) (h : Clean ⟨.statement k, t :: ts, eof, n, errors⟩)
    (ih : Behind ⟨.statement k, t :: ts, eof, n, errors⟩) :
    Sound ⟨.statement k, t :: ts, eof, n, errors⟩ := by
  have l : Leads (step ⟨.statement k, t :: ts, eof, n, errors⟩) _ :=
    .of_eq (step_statement_return ht)
  by_cases hs : firstKind ts = .semicolon
  · obtain ⟨semicolon, ts, rfl, hs⟩ := exists_cons_of_firstKind hs (by decide)
    exact ⟨.return ⟨t, ht⟩ .absent ⟨semicolon, hs⟩, ts, rfl, trivial, trivial,
      .step (l.trans (.next (step_returnValue_none hs) (.refl _)))⟩
  · replace l := l.trans (.next (step_returnValue_left hs) (.refl _))
    obtain ⟨e, rest, rfl, hb, -, le⟩ := ih _ l
    replace l := l.trans le
    obtain ⟨semicolon, rest, rfl, hs'⟩ := (h.to_step.of_leads l).required rfl
    exact ⟨.return ⟨t, ht⟩ (.present e) ⟨semicolon, hs'⟩, rest, by simp, hb, trivial,
      .step (l.trans (.next (step_return_end hs') (.refl _)))⟩

theorem sound_while (ht : t.kind = .while) (h : Clean ⟨.statement k, t :: ts, eof, n, errors⟩)
    (ih : Behind ⟨.statement k, t :: ts, eof, n, errors⟩) :
    Sound ⟨.statement k, t :: ts, eof, n, errors⟩ := by
  have l : Leads (step ⟨.statement k, t :: ts, eof, n, errors⟩) _ :=
    .of_eq (step_statement_while ht)
  obtain ⟨opening, ts, rfl, ho⟩ := (h.to_step.of_leads l).required rfl
  replace l := l.trans (.next (step_whileOpen ho) (.refl _))
  obtain ⟨test, rest, rfl, htb, -, lt⟩ := ih _ l
  replace l := l.trans lt
  obtain ⟨closing, rest, rfl, hc⟩ := (h.to_step.of_leads l).required rfl
  replace l := l.trans (.next (step_whileTest_close hc) (.refl _))
  obtain ⟨body, rest, rfl, hb, hn, lb⟩ := ih _ l
  exact ⟨.while ⟨t, ht⟩ ⟨opening, ho⟩ test ⟨closing, hc⟩ body, rest, by simp, ⟨htb, hb⟩, hn,
    .step ((l.trans lb).trans (.next rfl (.refl _)))⟩

theorem sound_block (ht : t.kind = .leftBrace)
    (ih : Behind ⟨.statement k, t :: ts, eof, n, errors⟩) :
    Sound ⟨.statement k, t :: ts, eof, n, errors⟩ := by
  have l : Leads (step ⟨.statement k, t :: ts, eof, n, errors⟩) _ :=
    .of_eq (step_statement_block ht)
  obtain ⟨body, closing, rest, rfl, hb, hn, lb⟩ := ih _ l
  exact ⟨.statementOfBlock (.block ⟨t, ht⟩ body closing), rest, by simp, hb, hn,
    .step ((l.trans lb).trans (.next rfl (.refl _)))⟩

theorem sound_statement (h : Clean ⟨.statement k, ts, eof, n, errors⟩)
    (ih : Behind ⟨.statement k, ts, eof, n, errors⟩) :
    Sound ⟨.statement k, ts, eof, n, errors⟩ := by
  cases hw : startsWordStatement (firstKind ts) with
  | true =>
    cases ts with
    | nil => cases hw
    | cons t ts =>
      unfold startsWordStatement at hw
      split at hw
      · exact sound_for (by assumption) h ih
      · exact sound_if (by assumption) h ih
      · exact sound_print (by assumption) h ih
      · exact sound_return (by assumption) h ih
      · exact sound_while (by assumption) h ih
      · exact sound_block (by assumption) ih
      · cases hw
  | false =>
    obtain ⟨e, rest, hr, hb, l⟩ := finds_expressionStatement h ih (.of_eq (step_statement_left hw))
    exact ⟨.statementOfExpression e, rest, hr, hb, trivial, .step l⟩

/-! ## Declarations -/

theorem step_parameterEnd_left (h : firstKind ts ≠ .comma) :
    step ⟨.parameterEnd c name ps kf, ts, eof, n, errors⟩ =
      require ⟨.parameterEnd c name ps kf, ts, eof, n, errors⟩ .rightParen .parametersClose kf
        fun _ => .callableBody c name ps.reverse kf := by
  simp [step, look_eq]

theorem sound_parameter (h : Clean ⟨.parameter c name ps kf, ts, eof, n, errors⟩)
    (ih : Behind ⟨.parameter c name ps kf, ts, eof, n, errors⟩) :
    Sound ⟨.parameter c name ps kf, ts, eof, n, errors⟩ := by
  -- with the list full an error would have been noted
  have fits : ps.length < maxArity := Nat.lt_of_not_le fun hl => by
    have noted := (grows_require (note ⟨.parameter c name ps kf, ts, eof, n, errors⟩
      .tooManyParameters) .identifier .parameterName kf
        fun p => .parameterEnd c name (p :: ps) kf).errors
    have none := h.to_step.errors_eq
    simp only [step, ge_iff_le, hl, if_true] at none
    rw [none] at noted
    cases List.suffix_nil.1 noted
  have taken : step ⟨.parameter c name ps kf, ts, eof, n, errors⟩ =
      require ⟨.parameter c name ps kf, ts, eof, n, errors⟩ .identifier .parameterName kf
        fun p => .parameterEnd c name (p :: ps) kf := by
    simp only [step, ge_iff_le, Nat.not_le.2 fits, if_false]
  obtain ⟨first, ts, rfl, hf⟩ := h.required taken
  have l : Leads (step ⟨.parameter c name ps kf, first :: ts, eof, n, errors⟩) _ :=
    .of_eq (step_parameter hf fits)
  by_cases hc : firstKind ts = .comma
  · obtain ⟨comma, ts, rfl, hc⟩ := exists_cons_of_firstKind hc (by decide)
    replace l := l.trans (.next (step_parameterEnd_comma hc) (.refl _))
    obtain ⟨second, others, closing, rest, rfl, hl, lo⟩ := ih _ l
    refine ⟨⟨first, hf⟩, (⟨comma, hc⟩, second) :: others, closing, rest, rfl, ?_, .step ?_⟩
    · simp only [List.length_cons] at hl ⊢
      omega
    · simpa [Parameters.names] using l.trans lo
  · obtain ⟨closing, rest, rfl, hp⟩ :=
      (h.to_step.of_leads l).required (step_parameterEnd_left hc)
    refine ⟨⟨first, hf⟩, [], ⟨closing, hp⟩, rest, rfl, fits, .step (l.trans ?_)⟩
    exact .next (step_parameterEnd_close hp) (by simpa [Parameters.names] using .refl _)

/-- The parameters are read up to the closing parenthesis. -/
theorem finds_parameters {s : State} (ih : Behind s)
    (l : Leads s.step ⟨.parameters c name kf, ts, eof, n, errors⟩) :
    ∃ (params : Parameters) (closing : Terminal .rightParen) (rest : List Token),
      ts = params.tokens ++ closing.1 :: rest ∧ params.names.length ≤ maxArity ∧
        Leads s.step ⟨.callableBody c name params.names kf, rest, eof, n, errors⟩ := by
  by_cases hc : firstKind ts = .rightParen
  · obtain ⟨closing, ts, rfl, hc⟩ := exists_cons_of_firstKind hc (by decide)
    exact ⟨.none, ⟨closing, hc⟩, ts, rfl, Nat.zero_le _,
      l.trans (.next (step_parameters_close hc) (.refl _))⟩
  · replace l := l.trans (.next (step_parameters_left hc) (.refl _))
    obtain ⟨first, others, closing, rest, rfl, hl, lp⟩ := ih _ l
    exact ⟨.some first others, closing, rest, rfl, by simpa [Parameters.names] using hl,
      l.trans lp⟩

theorem sound_callableName (h : Clean ⟨.callableName c kf, ts, eof, n, errors⟩)
    (ih : Behind ⟨.callableName c kf, ts, eof, n, errors⟩) :
    Sound ⟨.callableName c kf, ts, eof, n, errors⟩ := by
  obtain ⟨name, ts, rfl, hn⟩ := h.required rfl
  have l : Leads (step ⟨.callableName c kf, name :: ts, eof, n, errors⟩) _ :=
    .of_eq (step_callableName hn)
  obtain ⟨opening, ts, rfl, ho⟩ := (h.to_step.of_leads l).required rfl
  replace l := l.trans (.next (step_callableOpen ho) (.refl _))
  obtain ⟨params, closing, ts, rfl, hp, lp⟩ := finds_parameters ih l
  obtain ⟨brace, ts, rfl, hb⟩ := (h.to_step.of_leads lp).required rfl
  replace l := lp.trans (.next (step_callableBody hb) (.refl _))
  obtain ⟨body, closing', rest, rfl, hd, hs, lb⟩ := ih _ l
  exact ⟨.function ⟨name, hn⟩ ⟨opening, ho⟩ params closing (.block ⟨brace, hb⟩ body closing'), rest,
    by simp, ⟨hp, hd⟩, hs, .step ((l.trans lb).trans (.next rfl (.refl _)))⟩

theorem sound_methods (h : Clean ⟨.methods name fs k, ts, eof, n, errors⟩)
    (ih : Behind ⟨.methods name fs k, ts, eof, n, errors⟩) :
    Sound ⟨.methods name fs k, ts, eof, n, errors⟩ := by
  cases ts with
  | nil => exact absurd h.to_step (Clean.not_fail k rfl)
  | cons t ts =>
    by_cases ht : t.kind = .rightBrace
    · refine ⟨.noFunctions, ⟨t, ht⟩, ts, rfl, trivial, trivial, .next (step_methods_close ht) ?_⟩
      simpa using .refl _
    · have l : Leads (step ⟨.methods name fs k, t :: ts, eof, n, errors⟩) _ :=
        .of_eq (step_methods_more ht)
      obtain ⟨f, rest, hr, hb, hn, lf⟩ := ih _ l
      replace l := (l.trans lf).trans (.next step_method (.refl _))
      obtain ⟨others, closing, rest, rfl, hb', hn', lo⟩ := ih _ l
      refine ⟨.functions f others, closing, rest, by simpa using hr, ⟨hb, hb'⟩, ⟨hn, hn'⟩,
        .step ?_⟩
      simpa using l.trans lo

theorem sound_declarations (h : Clean ⟨.declarations done kb, ts, eof, n, errors⟩)
    (ih : Behind ⟨.declarations done kb, ts, eof, n, errors⟩) :
    Sound ⟨.declarations done kb, ts, eof, n, errors⟩ := by
  cases ts with
  | nil => exact absurd h.to_step (Clean.not_fail kb rfl)
  | cons t ts =>
    by_cases ht : t.kind = .rightBrace
    · refine ⟨.noDeclarations, ⟨t, ht⟩, ts, rfl, trivial, trivial,
        .next (step_declarations_close ht) ?_⟩
      simpa using .refl _
    · have l : Leads (step ⟨.declarations done kb, t :: ts, eof, n, errors⟩) _ :=
        .of_eq (step_declarations_more ht)
      obtain ⟨d, rest, hr, hb, hn, ld⟩ := ih _ l
      replace l := (l.trans ld).trans (.next step_declared (.refl _))
      obtain ⟨others, closing, rest, rfl, hb', hn', lo⟩ := ih _ l
      refine ⟨.declarations d others, closing, rest, by simpa using hr, ⟨hb, hb'⟩, ⟨hn, hn'⟩,
        .step ?_⟩
      simpa using l.trans lo

theorem sound_program (ih : Behind ⟨.program done, ts, eof, n, errors⟩) :
    Sound ⟨.program done, ts, eof, n, errors⟩ := by
  cases ts with
  | nil => exact ⟨.noDeclarations, rfl, trivial, trivial, .next rfl (by simpa using .refl _)⟩
  | cons t ts =>
    have l : Leads (step ⟨.program done, t :: ts, eof, n, errors⟩) _ := .of_eq step_program_more
    obtain ⟨d, rest, hr, hb, hn, ld⟩ := ih _ l
    replace l := (l.trans ld).trans (.next step_program_declared (.refl _))
    obtain ⟨others, rfl, hb', hn', lo⟩ := ih _ l
    refine ⟨.declarations d others, hr, ⟨hb, hb'⟩, ⟨by simpa using hn, hn'⟩, .step ?_⟩
    simpa using l.trans lo

theorem sound_declaration (h : Clean ⟨.declaration k, ts, eof, n, errors⟩)
    (ih : Behind ⟨.declaration k, ts, eof, n, errors⟩) :
    Sound ⟨.declaration k, ts, eof, n, errors⟩ := by
  by_cases hc : firstKind ts = .class
  · obtain ⟨keyword, ts, rfl, hc⟩ := exists_cons_of_firstKind hc (by decide)
    have l : Leads (step ⟨.declaration k, keyword :: ts, eof, n, errors⟩) _ :=
      .of_eq (step_declaration_class hc)
    obtain ⟨name, ts, rfl, hn⟩ := (h.to_step.of_leads l).required rfl
    replace l := l.trans (.next (step_className hn) (.refl _))
    obtain ⟨opening, ts, rfl, ho⟩ := (h.to_step.of_leads l).required rfl
    replace l := l.trans (.next (step_classOpen ho) (.refl _))
    obtain ⟨methods, closing, rest, rfl, hb, hs, lm⟩ := ih _ l
    exact ⟨.classDeclaration ⟨keyword, hc⟩ ⟨name, hn⟩ ⟨opening, ho⟩ methods closing, rest, by simp,
      hb, hs, .step (l.trans lm)⟩
  by_cases hf : firstKind ts = .fun
  · obtain ⟨keyword, ts, rfl, hf⟩ := exists_cons_of_firstKind hf (by decide)
    have l : Leads (step ⟨.declaration k, keyword :: ts, eof, n, errors⟩) _ :=
      .of_eq (step_declaration_fun hf)
    obtain ⟨f, rest, rfl, hb, hn, lf⟩ := ih _ l
    exact ⟨.functionDeclaration ⟨keyword, hf⟩ f, rest, rfl, hb, hn,
      .step ((l.trans lf).trans (.next rfl (.refl _)))⟩
  by_cases hv : firstKind ts = .var
  · obtain ⟨keyword, ts, rfl, hv⟩ := exists_cons_of_firstKind hv (by decide)
    have l : Leads (step ⟨.declaration k, keyword :: ts, eof, n, errors⟩) _ :=
      .of_eq (step_declaration_var hv)
    obtain ⟨v, rest, hr, hb, -, lv⟩ := ih _ l ⟨keyword, hv⟩
    exact ⟨.declarationOfVariable v, rest, hr, hb, trivial, .step (l.trans lv)⟩
  · have l : Leads (step ⟨.declaration k, ts, eof, n, errors⟩) _ :=
      .of_eq (step_declaration_left hc hf hv)
    obtain ⟨d, rest, hr, hb, hn, ld⟩ := ih _ l
    exact ⟨.declarationOfStatement d, rest, hr, hb, hn, .step (l.trans ld)⟩

end

/-! ## Every task -/

/-- On the way of a parse that ends without errors, every task reads what it stands for. -/
theorem sound (s : State) (h : Clean s) : Sound s := by
  -- a state that has ended stands for nothing; any other is read by what is behind it
  refine Clean.induction (fun s he => ?_) (fun s h ih => ?_) s h
  · obtain ⟨task, rest, eof, n, errors⟩ := s
    cases task with
    | finished statements => trivial
    | _ => cases he
  · obtain ⟨task, rest, eof, n, errors⟩ := s
    cases task with
    | expression k => exact sound_expression h ih
    | level l k => exact sound_level ih
    | unary k => exact sound_unary h ih
    | primary k => exact sound_primary h ih
    | giveExpression e k =>
      cases k with
      | operators l k => exact sound_operators ih
      | trailers k => exact sound_trailers h ih
      | _ => trivial
    | argument callee done k => exact sound_argument h ih
    | variableName k => exact sound_variableName h ih
    | statement k => exact sound_statement h ih
    | forInitializer k => exact sound_forInitializer h ih
    | forTest i k => exact sound_forTest h ih
    | forStep i x k => exact sound_forStep h ih
    | declaration k => exact sound_declaration h ih
    | declarations done k => exact sound_declarations h ih
    | program done => exact sound_program ih
    | methods name done k => exact sound_methods h ih
    | callableName c k => exact sound_callableName h ih
    | parameter c name done k => exact sound_parameter h ih
    | _ => trivial

/-! ## Whole programs -/

/-- The tokens of an accepted program up to the end of the source have a derivation. -/
theorem exists_derivation (tokens : List Token) (n : Nat) {statements : List Stmt}
    (hp : (program n tokens).program = .ok statements) :
    ∃ d : Derivation .declarations, d.tokens = tokens.takeWhile (·.kind != .eof) ∧ d.Bounded ∧
      d.Nearest [] ∧ d.tree n = (statements, (program n tokens).nextId) := by
  simp only [program] at hp ⊢
  split at hp
  case isFalse => cases hp
  case isTrue none =>
    have clean : Clean (.start n tokens) := List.isEmpty_iff.1 none
    obtain ⟨d, hd, hb, hn, l⟩ := sound _ clean
    refine ⟨d, hd.symm, hb, hn, ?_⟩
    have finished : (State.start n tokens).run =
        ⟨.finished (d.tree n).1, [], (State.start n tokens).eof, (d.tree n).2, []⟩ := by
      rw [l.run_eq, run]
      rfl
    rw [finished] at hp ⊢
    cases hp
    rfl

/-- What the parser accepts is derived by the grammar, with no list too long and every `else` at the
nearest `if`, and the program is the tree of that derivation. -/
theorem exists_derivation_of_program (ts : List Token) (h : ∀ t ∈ ts, t.kind ≠ .eof) (eof : Token)
    (he : eof.kind = .eof) (n : Nat) (statements : List Stmt)
    (hp : (program n (ts ++ [eof])).program = .ok statements) :
    ∃ d : Derivation .declarations, d.tokens = ts ∧ d.Bounded ∧ d.Nearest [] ∧
      d.tree n = (statements, (program n (ts ++ [eof])).nextId) := by
  obtain ⟨d, hd, hb, hn, ht⟩ := exists_derivation _ n hp
  exact ⟨d, hd.trans (takeWhile_append_eof h he), hb, hn, ht⟩

/-- The tokens of `if (a) if (b) c; else d;` are accepted, and so have a derivation. -/
theorem exists_derivation_of_dangling :
    (program 0 (dangling.tokens ++ [.endOn 1])).program = .ok (dangling.tree 0).1 ∧
      ∃ d : Derivation .declarations, d.tokens = dangling.tokens ∧ d.Bounded ∧ d.Nearest [] ∧
        d.tree 0 = ((dangling.tree 0).1, (program 0 (dangling.tokens ++ [.endOn 1])).nextId) := by
  have accepted : (program 0 (dangling.tokens ++ [.endOn 1])).program = .ok (dangling.tree 0).1 :=
    congrArg Parsed.program
      (program_tokens dangling bounded_dangling nearest_dangling (.endOn 1) rfl 0)
  exact ⟨accepted, exists_derivation_of_program dangling.tokens (kind_ne_eof dangling) (.endOn 1)
    rfl 0 _ accepted⟩

end Lox.Grammar
