/-
The first syntax error is found as early as can be. At every moment of a parse that has not found an
error, what the parser still looks for (`Task.ahead`) derives just what can stand behind the tokens
taken so far in a program of the relaxed grammar and starts with the next token. A step narrows that
down or takes the token (`step_advances`); where it gives up, nothing is left that starts with the
token, though something else could have followed (`first_error_earliest`).
-/
import Lox.Proofs.Grammar.Relaxed
import Lox.Proofs.Grammar.Clean
import Lox.Proofs.Grammar.Progress

namespace Lox

open Grammar

namespace Grammar

/-! ## Looking at a token -/

/-- In front of the token, the second items are looked for instead of the first. -/
structure Narrows (t : Token) (items items' : List Item) : Prop where
  derives : ∀ us, Derives items' us → Derives items us
  covers : ∀ us, Derives items (t :: us) → Derives items' (t :: us)

/-- Behind the token, the second items are looked for of the first. -/
def Consumes (t : Token) (items items' : List Item) : Prop :=
  ∀ us, Derives items (t :: us) ↔ Derives items' us

section

variable {t : Token} {admits : Kind → Bool} {kind : Kind} {items items' items'' part : List Item}

namespace Narrows

theorem refl (t : Token) (items : List Item) : Narrows t items items := ⟨fun _ => id, fun _ => id⟩

theorem trans (h : Narrows t items items') (h' : Narrows t items' items'') :
    Narrows t items items'' :=
  ⟨fun us derived => h.derives us (h'.derives us derived),
    fun us derived => h'.covers us (h.covers us derived)⟩

theorem consumes (h : Narrows t items items') (h' : Consumes t items' items'') :
    Consumes t items items'' := fun us =>
  ⟨fun derived => (h' us).1 (h.covers us derived), fun derived => h.derives _ ((h' us).2 derived)⟩

theorem blocks (h : Narrows t items items') (h' : Blocks t items') : Blocks t items :=
  fun us derived => h' us (h.covers us derived)

theorem absent (h : Blocks t (part ++ items)) : Narrows t (.optional part :: items) items :=
  ⟨fun _ => .absent, fun us derived => (derives_optional.1 derived).resolve_right (h us)⟩

theorem present (h : Blocks t items) : Narrows t (.optional part :: items) (part ++ items) :=
  ⟨fun _ => .present, fun us derived => (derives_optional.1 derived).resolve_left (h us)⟩

theorem done (h : Blocks t (part ++ .many part :: items)) :
    Narrows t (.many part :: items) items :=
  ⟨fun _ => .done, fun us derived => (derives_many.1 derived).resolve_right (h us)⟩

theorem more (h : Blocks t items) :
    Narrows t (.many part :: items) (part ++ .many part :: items) :=
  ⟨fun _ => .more, fun us derived => (derives_many.1 derived).resolve_left (h us)⟩

theorem of_iff (h : ∀ us, Derives items us ↔ Derives items' us) : Narrows t items items' :=
  ⟨fun us => (h us).2, fun _ => (h _).1⟩

/-- The only rule of a nonterminal stands for it. -/
theorem rule {n : Nonterminal} {rule : List Item} (h : n.rules = [rule]) :
    Narrows t (.phrase n :: items) (rule ++ items) :=
  of_iff fun us => by simp [derives_phrase, h]

end Narrows

theorem consumes_token (h : admits t.kind = true) : Consumes t (.token admits :: items) items :=
  fun _ => derives_token.trans (and_iff_right h)

theorem consumes_kind (h : t.kind = kind) : Consumes t (.kind kind :: items) items :=
  consumes_token (decide_eq_true h)

/-- If what stands behind an optional part could start with the token too, it has to go on in the same
way. -/
theorem consumes_optional (first : Consumes t (part ++ items) items')
    (unique : ∀ us, Derives items (t :: us) → Derives items' us) :
    Consumes t (.optional part :: items) items' := fun us =>
  ⟨fun derived => (derives_optional.1 derived).elim (unique us) (first us).1,
    fun derived => .present ((first us).2 derived)⟩

theorem consumes_many (first : Consumes t (part ++ .many part :: items) items')
    (unique : ∀ us, Derives items (t :: us) → Derives items' us) :
    Consumes t (.many part :: items) items' := fun us =>
  ⟨fun derived => (derives_many.1 derived).elim (unique us) (first us).1,
    fun derived => .more ((first us).2 derived)⟩

theorem blocks_token (h : admits t.kind = false) : Blocks t (.token admits :: items) := by
  intro us derived
  rw [(derives_token.1 derived).1] at h
  cases h

theorem blocks_kind (h : t.kind ≠ kind) : Blocks t (.kind kind :: items) :=
  blocks_token (decide_eq_false h)

end

end Grammar

namespace Parse

/-! ## What is looked for -/

/-- What is looked for behind the part that is waited for. -/
def Pending.ahead : {p : Part} → Pending p → List Item
  | _, .assignment k => .optional [.kind .equal, .phrase .expression] :: k.ahead
  | _, .assigned _ _ k => k.ahead
  | _, .operators l k => operations l :: k.ahead
  | _, .rightOperand l _ _ k => operations l :: k.ahead
  | _, .operand _ k => k.ahead
  | _, .trailers k => Grammar.trailers :: k.ahead
  | _, .argument _ _ k =>
    .many [.kind .comma, .phrase .expression] :: .kind .rightParen :: k.ahead
  | _, .group k => .kind .rightParen :: k.ahead
  | _, .initializer _ k => .kind .semicolon :: k.ahead
  | _, .ifTest k =>
    .kind .rightParen :: .phrase .statement :: .optional [.kind .else, .phrase .statement] :: k.ahead
  | _, .whileTest k => .kind .rightParen :: .phrase .statement :: k.ahead
  | _, .printed k => .kind .semicolon :: k.ahead
  | _, .returned _ k => .kind .semicolon :: k.ahead
  | _, .expressionStatement k => .kind .semicolon :: k.ahead
  | _, .forTest _ k =>
    .kind .semicolon :: .optional [.phrase .expression] :: .kind .rightParen ::
      .phrase .statement :: k.ahead
  | _, .forStep _ _ k => .kind .rightParen :: .phrase .statement :: k.ahead
  | _, .program _ => [.many [.phrase .declaration], .kind .eof]
  | _, .declarations _ k => .many [.phrase .declaration] :: .kind .rightBrace :: k.ahead
  | _, .thenBranch _ k => .optional [.kind .else, .phrase .statement] :: k.ahead
  | _, .elseBranch _ _ k => k.ahead
  | _, .whileBody _ k => k.ahead
  | _, .forInitializer k =>
    .optional [.phrase .expression] :: .kind .semicolon :: .optional [.phrase .expression] ::
      .kind .rightParen :: .phrase .statement :: k.ahead
  | _, .forBody _ _ _ k => k.ahead
  | _, .block k => k.ahead
  | _, .functionBody _ _ k => k.ahead
  | _, .declared k => k.ahead
  | _, .method _ _ k => .many [.phrase .function] :: .kind .rightBrace :: k.ahead

/-- What is looked for at the next token. -/
def Task.ahead : Task → List Item
  | .program _ => [.many [.phrase .declaration], .kind .eof]
  | .declarations _ k => .many [.phrase .declaration] :: .kind .rightBrace :: k.ahead
  | .declaration k => .phrase .declaration :: k.ahead
  | .className k =>
    .kind .identifier :: .kind .leftBrace :: .many [.phrase .function] :: .kind .rightBrace ::
      k.ahead
  | .classOpen _ k =>
    .kind .leftBrace :: .many [.phrase .function] :: .kind .rightBrace :: k.ahead
  | .methods _ _ k => .many [.phrase .function] :: .kind .rightBrace :: k.ahead
  | .callableName _ k => .phrase .function :: k.ahead
  | .callableOpen _ _ k =>
    .kind .leftParen :: .optional [.phrase .parameters] :: .kind .rightParen :: .phrase .block ::
      k.ahead
  | .parameters _ _ k =>
    .optional [.phrase .parameters] :: .kind .rightParen :: .phrase .block :: k.ahead
  | .parameter _ _ _ k => .phrase .parameters :: .kind .rightParen :: .phrase .block :: k.ahead
  | .parameterEnd _ _ _ k =>
    .many [.kind .comma, .kind .identifier] :: .kind .rightParen :: .phrase .block :: k.ahead
  | .callableBody _ _ _ k => .phrase .block :: k.ahead
  | .variableName k =>
    .kind .identifier :: .optional [.kind .equal, .phrase .expression] :: .kind .semicolon :: k.ahead
  | .variableValue _ k =>
    .optional [.kind .equal, .phrase .expression] :: .kind .semicolon :: k.ahead
  | .statement k => .phrase .statement :: k.ahead
  | .forOpen k =>
    .kind .leftParen :: .choice [[.phrase .varDecl], [.phrase .exprStmt], [.kind .semicolon]] ::
      (Pending.forInitializer k).ahead
  | .forInitializer k =>
    .choice [[.phrase .varDecl], [.phrase .exprStmt], [.kind .semicolon]] ::
      (Pending.forInitializer k).ahead
  | .forTest _ k => (Pending.forInitializer k).ahead
  | .forStep _ _ k =>
    .optional [.phrase .expression] :: .kind .rightParen :: .phrase .statement :: k.ahead
  | .ifOpen k =>
    .kind .leftParen :: .phrase .expression :: .kind .rightParen :: .phrase .statement ::
      .optional [.kind .else, .phrase .statement] :: k.ahead
  | .whileOpen k =>
    .kind .leftParen :: .phrase .expression :: .kind .rightParen :: .phrase .statement :: k.ahead
  | .returnValue _ k => .optional [.phrase .expression] :: .kind .semicolon :: k.ahead
  | .expression k => .phrase .expression :: k.ahead
  | .level l k => .phrase (.binary l) :: k.ahead
  | .unary k => .phrase .unary :: k.ahead
  | .primary k => .phrase .primary :: k.ahead
  | .arguments _ k => .optional [.phrase .arguments] :: .kind .rightParen :: k.ahead
  | .argument _ _ k => .phrase .arguments :: .kind .rightParen :: k.ahead
  | .property _ k => .kind .identifier :: k.ahead
  | .giveExpression _ k => k.ahead
  | .giveStatement _ k => k.ahead
  | .giveFunction _ k => k.ahead
  | .giveBody _ k => k.ahead
  | .fail _ k => k.ahead
  | .finished _ => [.kind .eof]

theorem Pending.productive_ahead {p : Part} (k : Pending p) : Productive k.ahead := by
  induction k <;> simp_all [Pending.ahead, operations, Grammar.trailers]

theorem Task.productive_ahead (task : Task) : Productive task.ahead := by
  have initializer : (Item.choice [[.phrase .varDecl], [.phrase .exprStmt],
      [.kind .semicolon]]).Productive := .choice (.tail _ (.tail _ (.head _))) (by simp)
  cases task <;> simp [Task.ahead, Pending.ahead, Pending.productive_ahead, initializer]

/-! ## Tokens that a part goes on with -/

/-- A part that could be complete goes on with a token of the kind, and then with the items. -/
inductive Extends : Part → Kind → List Item → Prop
  | assignment : Extends .expression .equal [.phrase .expression]
  | operation {l : Level} {kind : Kind} : l.admits kind = true →
    Extends .expression kind [operand l, operations l]
  | call : Extends .expression .leftParen
    [.optional [.phrase .arguments], .kind .rightParen, Grammar.trailers]
  | get : Extends .expression .dot [.kind .identifier, Grammar.trailers]
  | elseBranch : Extends .statement .else [.phrase .statement]

section

variable {t : Token} {items rest : List Item} {us : List Token}

/-- The token does not close an expression. -/
theorem Extends.open {kind : Kind} (h : Extends .expression kind items) :
    kind ≠ .rightParen ∧ kind ≠ .semicolon ∧ kind ≠ .comma := by
  cases h with
  | assignment | call | get => decide
  | @operation l _ admitted =>
    refine ⟨?_, ?_, ?_⟩ <;> rintro rfl <;> cases l <;> cases admitted

/-- No kind is an operator of two levels. -/
theorem level_unique {kind : Kind} {l l' : Level} (h : l.admits kind = true)
    (h' : l'.admits kind = true) : l' = l := by
  cases kind <;> cases l <;> first
    | exact absurd h Bool.false_ne_true
    | cases l' <;> first | rfl | exact absurd h' Bool.false_ne_true

theorem Extends.eq_of_admits {kind : Kind} {l : Level} (h : Extends .expression kind items)
    (admitted : l.admits kind = true) : items = [operand l, operations l] := by
  cases h with
  | assignment | call | get => cases l <;> cases admitted
  | operation admitted' => rw [level_unique admitted admitted']

/-- Behind a token of these kinds there is only one way to go on. -/
theorem Extends.unique {p : Part} {kind : Kind} {items' : List Item} (h : Extends p kind items)
    (h' : Extends p kind items') : items = items' := by
  cases h' with
  | operation admitted => exact h.eq_of_admits admitted
  | elseBranch => cases h; rfl
  | assignment | call | get =>
    cases h with
    | operation admitted => rename_i l; cases l <;> cases admitted
    | _ => rfl

/-- If what waits for a part can go on with such a token, the part can as well. -/
theorem Pending.extends {p : Part} {kind : Kind} (k : Pending p) (ht : t.kind = kind)
    (h : Extends p kind items) (derived : Derives k.ahead (t :: us)) :
    Derives (items ++ k.ahead) us := by
  -- down to what waits for the innermost part that has to be closed
  induction k with
  | assignment k ih =>
    rcases derives_optional.1 derived with rest | more
    · exact Derives.mono items (ih h rest) fun _ => .absent
    · obtain ⟨equal, value⟩ := derives_token.1 more
      obtain rfl : kind = .equal := ht ▸ of_decide_eq_true equal
      obtain rfl := h.unique .assignment
      exact Derives.mono [.phrase .expression] value fun _ => .absent
  | operators l k ih | rightOperand l left op k ih =>
    rcases derives_many.1 derived with rest | more
    · exact Derives.mono items (ih h rest) fun _ => .done
    · obtain ⟨admitted, right⟩ := derives_token.1 more
      obtain rfl := h.unique (.operation (ht ▸ admitted))
      exact Derives.mono [Grammar.operand l, operations l] right fun _ => .done
  | trailers k ih =>
    rcases derives_many.1 derived with rest | more
    · exact Derives.mono items (ih h rest) fun _ => .done
    · obtain ⟨trailer, mem, more⟩ := derives_choice.1 more
      simp only [List.mem_cons, List.not_mem_nil, or_false] at mem
      rcases mem with rfl | rfl
      · obtain ⟨opening, more⟩ := derives_token.1 more
        obtain rfl : kind = .leftParen := ht ▸ of_decide_eq_true opening
        obtain rfl := h.unique .call
        exact Derives.mono [.optional [.phrase .arguments], .kind .rightParen, Grammar.trailers] more
          fun _ => .done
      · obtain ⟨dot, more⟩ := derives_token.1 more
        obtain rfl : kind = .dot := ht ▸ of_decide_eq_true dot
        obtain rfl := h.unique .get
        exact Derives.mono [.kind .identifier, Grammar.trailers] more fun _ => .done
  | assigned target equals k ih | operand op k ih => exact ih h derived
  | argument callee done k =>
    rcases derives_many.1 derived with rest | more
    · exact absurd (ht ▸ of_decide_eq_true (derives_token.1 rest).1) h.open.1
    · exact absurd (ht ▸ of_decide_eq_true (derives_token.1 more).1) h.open.2.2
  | group k | ifTest k | whileTest k | forStep i test k =>
    exact absurd (ht ▸ of_decide_eq_true (derives_token.1 derived).1) h.open.1
  | initializer name k | printed k | returned keyword k | expressionStatement k | forTest i k =>
    exact absurd (ht ▸ of_decide_eq_true (derives_token.1 derived).1) h.open.2.1
  | program done | declarations done k =>
    cases h
    rcases derives_many.1 derived with rest | more
    · rw [of_decide_eq_true (derives_token.1 rest).1] at ht
      cases ht
    · exact absurd more (blocks_declaration (by rw [ht]; rfl) us)
  | thenBranch condition k ih =>
    rcases derives_optional.1 derived with rest | more
    · exact Derives.mono items (ih h rest) fun _ => .absent
    · obtain ⟨-, statement⟩ := derives_token.1 more
      cases h
      exact Derives.mono [.phrase .statement] statement fun _ => .absent
  | elseBranch condition thenBranch k ih | whileBody condition k ih | forBody i x y k ih =>
    exact ih h derived
  | forInitializer k =>
    cases h
    rcases derives_optional.1 derived with rest | more
    · rw [of_decide_eq_true (derives_token.1 rest).1] at ht
      cases ht
    · exact absurd more (blocks_expression (by rw [ht]; rfl) us)
  | block k | functionBody name params k | declared k | method className done k => cases h

end

/-! ## Steps -/

/-- Has the parse given up? -/
def Task.failed : Task → Bool
  | .fail _ _ => true
  | _ => false

namespace State

/-- What a step can do as long as the parse has not given up. -/
inductive Advances (s : State) : State → Prop
  | leave {task : Task} (nextId : Nat) : task.failed = false →
    Narrows s.next s.task.ahead task.ahead → Advances s { s with task, nextId }
  | take {task : Task} (nextId : Nat) : s.look ≠ .eof → task.failed = false →
    Consumes s.next s.task.ahead task.ahead →
    Advances s { s with task, rest := s.rest.tail, nextId }
  | miss (what : Expected) {p : Part} (k : Pending p) : Blocks s.next s.task.ahead →
    Advances s (s.missing what k)
  | note {s' : State} {t : Token} {fault : SyntaxFault} : (∀ what, fault ≠ .expected what) →
    s'.errors = .syntactic t fault :: s.errors → Advances s s'

section

variable {s : State} {kind : Kind} {what : Expected} {p : Part} {k : Pending p}
  {task : Token → Task} {left : Task} {items : List Item}

theorem look_eq_next (h : s.eof.kind = .eof) : s.look = s.next.kind := by
  obtain ⟨task, rest, eof, n, errors⟩ := s
  cases rest with
  | nil => exact h.symm
  | cons t ts => rfl

/-- A word that no expression starts with leaves no rule of an expression. -/
theorem not_derives_expression (h : s.eof.kind = .eof) {us : List Token}
    (no : startsExpression s.look = false) :
    ¬Derives (.phrase .expression :: items) (s.next :: us) :=
  blocks_expression (look_eq_next h ▸ no) us

theorem advances_require (h : s.eof.kind = .eof) (hk : kind ≠ .eof)
    (narrows : Narrows s.next s.task.ahead (.kind kind :: items))
    (on : ∀ t, (task t).failed = false) (ahead : ∀ t, (task t).ahead = items) :
    Advances s (s.require kind what k task) := by
  obtain ⟨now, rest, eof, n, errors⟩ := s
  unfold require
  cases rest with
  | nil => exact .miss what k (narrows.blocks (blocks_kind fun hn => hk (hn.symm.trans h)))
  | cons t ts =>
    dsimp only
    split
    next ht =>
      exact .take n (by rw [look_eq_next h]; exact ht ▸ hk) (on t)
        (narrows.consumes (ahead t ▸ consumes_kind ht))
    next ht => exact .miss what k (narrows.blocks (blocks_kind ht))

theorem advances_branch (h : s.eof.kind = .eof) (hk : kind ≠ .eof)
    (on : ∀ t, (task t).failed = false) (on_left : left.failed = false)
    (taken : s.next.kind = kind → Consumes s.next s.task.ahead (task s.next).ahead)
    (narrows : s.next.kind ≠ kind → Narrows s.next s.task.ahead left.ahead) :
    Advances s (s.branch kind task left) := by
  obtain ⟨now, rest, eof, n, errors⟩ := s
  unfold branch
  cases rest with
  | nil => exact .leave n on_left (narrows fun hn => hk (hn.symm.trans h))
  | cons t ts =>
    dsimp only
    split
    next ht => exact .take n (by rw [look_eq_next h]; exact ht ▸ hk) (on t) (taken ht)
    next ht => exact .leave n on_left (narrows ht)

theorem advances_statement {k : Pending .statement} (h : s.eof.kind = .eof)
    (here : s.task.ahead = .phrase .statement :: k.ahead) : Advances s (s.statement k) := by
  have look := look_eq_next h
  unfold statement
  split
  case h_7 =>
    refine .leave _ rfl ⟨fun us derived => ?_, fun us derived => ?_⟩
    · exact here ▸ .phrase (.head _) (.phrase (.head _) derived)
    · rw [here, derives_statement] at derived
      simp_all [Task.ahead, Pending.ahead]
  all_goals
    rename_i hk
    refine .take _ (by simp [hk]) rfl fun us => ?_
    rw [here, derives_statement]
    simp [← look, hk, not_derives_expression h (by rw [hk]; rfl), Task.ahead, Pending.ahead]

theorem advances_declaration {k : Pending .statement} (h : s.eof.kind = .eof)
    (here : s.task.ahead = .phrase .declaration :: k.ahead) : Advances s (s.declaration k) := by
  have look := look_eq_next h
  unfold declaration
  split
  case h_4 =>
    refine .leave _ rfl ⟨fun us derived => ?_, fun us derived => ?_⟩
    · exact here ▸ .phrase (.tail _ (.tail _ (.tail _ (.head _)))) derived
    · rw [here, derives_declaration] at derived
      simp_all [Task.ahead]
  all_goals
    rename_i hk
    refine .take _ (by simp [hk]) rfl fun us => ?_
    rw [here, derives_declaration, derives_statement]
    simp [← look, hk, not_derives_expression h (by rw [hk]; rfl), Task.ahead, Pending.ahead]

theorem advances_forInitializer {k : Pending .statement} (h : s.eof.kind = .eof)
    (here : s.task = .forInitializer k) : Advances s (s.forInitializer k) := by
  have look := look_eq_next h
  have clause : ∀ us, Derives s.task.ahead (s.next :: us) ↔
      s.look = .var ∧ Derives ([.kind .identifier, .optional [.kind .equal, .phrase .expression],
        .kind .semicolon] ++ (Pending.forInitializer k).ahead) us ∨
      Derives (.phrase .expression :: .kind .semicolon :: (Pending.forInitializer k).ahead)
        (s.next :: us) ∨
      s.look = .semicolon ∧ Derives (Pending.forInitializer k).ahead us := by
    simp [here, Task.ahead, derives_choice, derives_phrase (n := .varDecl),
      derives_phrase (n := .exprStmt), Nonterminal.rules, look]
  unfold forInitializer
  split
  case h_3 =>
    refine .leave _ rfl ⟨fun us derived => ?_, fun us derived => ?_⟩
    · exact here ▸ .choice (.tail _ (.head _)) (.phrase (.head _) derived)
    · rw [clause] at derived
      simp_all [Task.ahead, Pending.ahead]
  all_goals
    rename_i hk
    refine .take _ (by simp [hk]) rfl fun us => ?_
    rw [clause]
    simp [hk, not_derives_expression h (by rw [hk]; rfl), Task.ahead, Pending.ahead]

theorem advances_unary {k : Pending .expression} (h : s.eof.kind = .eof)
    (here : s.task = .unary k) : Advances s (s.unary k) := by
  have look := look_eq_next h
  have prefixed : ∀ us, Derives s.task.ahead (s.next :: us) ↔
      (s.look = .bang ∨ s.look = .minus) ∧ Derives (.phrase .unary :: k.ahead) us ∨
      Derives (.phrase .primary :: Grammar.trailers :: k.ahead) (s.next :: us) := by
    simp [here, Task.ahead, derives_phrase (n := .unary), derives_phrase (n := .call),
      Nonterminal.rules, look]
  have operator : ∀ {us items}, startsPrimary s.look = false →
      ¬Derives (.phrase .primary :: items) (s.next :: us) := fun no derived => by
    rw [look, starts_primary derived] at no
    cases no
  unfold unary
  split
  case h_3 =>
    refine .leave _ rfl ⟨fun us derived => ?_, fun us derived => ?_⟩
    · exact here ▸ .phrase (.tail _ (.head _)) (.phrase (.head _) derived)
    · rw [prefixed] at derived
      simp_all [Task.ahead, Pending.ahead]
  all_goals
    rename_i hk
    refine .take _ (by simp [hk]) rfl fun us => ?_
    rw [prefixed]
    simp [hk, operator (by rw [hk]; rfl), Task.ahead, Pending.ahead]

theorem advances_primary {k : Pending .expression} (h : s.eof.kind = .eof)
    (here : s.task = .primary k) : Advances s (s.primary k) := by
  have parts : ∀ us, Derives s.task.ahead (s.next :: us) ↔
      (literal? s.look).isSome ∧ Derives k.ahead us ∨ s.look = .identifier ∧ Derives k.ahead us ∨
      s.look = .leftParen ∧ Derives (.phrase .expression :: .kind .rightParen :: k.ahead) us :=
    fun us => by rw [here, look_eq_next h]; exact derives_primary
  unfold primary
  split
  case h_8 =>
    refine .miss _ k fun us derived => ?_
    rcases (parts us).1 derived with ⟨constant, -⟩ | ⟨name, -⟩ | ⟨opening, -⟩
    · clear parts
      unfold literal? at constant
      split at constant <;> simp_all
    all_goals contradiction
  all_goals
    rename_i hk
    refine .take _ (by simp [hk]) rfl fun us => ?_
    rw [parts]
    simp [hk, literal?, Task.ahead, Pending.ahead]

end

section

variable {t : Token} {k : Pending .expression}

/-- An `=` behind an expression is one of the expression, whatever waits for it. -/
theorem consumes_assignment (ht : t.kind = .equal) :
    Consumes t (Pending.assignment k).ahead (.phrase .expression :: k.ahead) :=
  consumes_optional (consumes_kind ht) fun _ => k.extends ht .assignment

theorem consumes_operations {l : Level} (ht : l.admits t.kind = true) :
    Consumes t (operations l :: k.ahead) (operand l :: operations l :: k.ahead) :=
  consumes_many (consumes_token ht) fun _ => k.extends rfl (.operation ht)

theorem consumes_call (ht : t.kind = .leftParen) :
    Consumes t (Pending.trailers k).ahead
      (.optional [.phrase .arguments] :: .kind .rightParen :: Grammar.trailers :: k.ahead) :=
  consumes_many (fun us => by simp [derives_choice, ht, Grammar.trailers]) fun _ =>
    k.extends ht .call

theorem consumes_get (ht : t.kind = .dot) :
    Consumes t (Pending.trailers k).ahead (.kind .identifier :: Grammar.trailers :: k.ahead) :=
  consumes_many (fun us => by simp [derives_choice, ht, Grammar.trailers]) fun _ =>
    k.extends ht .get

theorem consumes_else {k : Pending .statement} (ht : t.kind = .else) :
    Consumes t (.optional [.kind .else, .phrase .statement] :: k.ahead)
      (.phrase .statement :: k.ahead) :=
  consumes_optional (consumes_kind ht) fun _ => k.extends ht .elseBranch

theorem ahead_operandTask (l : Level) : (operandTask l k).ahead = operand l :: k.ahead := by
  cases l <;> rfl

theorem failed_operandTask (l : Level) : (operandTask l k).failed = false := by
  cases l <;> rfl

end

section

variable {s : State}

theorem advances_trailers {e : Expr} {k : Pending .expression} (h : s.eof.kind = .eof)
    (here : s.task.ahead = (Pending.trailers k).ahead) : Advances s (s.trailers e k) := by
  have look := look_eq_next h
  unfold trailers
  split
  next hk => exact .take _ (by simp [hk]) rfl (here ▸ consumes_call (look ▸ hk))
  next hk => exact .take _ (by simp [hk]) rfl (here ▸ consumes_get (look ▸ hk))
  next no_call no_get =>
    refine .leave _ rfl (here ▸ .done fun us derived => ?_)
    obtain ⟨trailer, mem, derived⟩ := derives_choice.1 derived
    simp only [List.mem_cons, List.not_mem_nil, or_false] at mem
    rcases mem with rfl | rfl
    · exact no_call (look.trans (of_decide_eq_true (derives_token.1 derived).1))
    · exact no_get (look.trans (of_decide_eq_true (derives_token.1 derived).1))

theorem advances_giveExpression {e : Expr} (k : Pending .expression) (h : s.eof.kind = .eof)
    (here : s.task.ahead = k.ahead) : Advances s (s.giveExpression e k) := by
  have look := look_eq_next h
  have same : Narrows s.next s.task.ahead k.ahead := here ▸ .refl _ _
  cases k with
  | assignment k =>
    refine advances_branch h (by decide) (fun _ => rfl) rfl (fun hk => ?_) fun hk => ?_
    · exact here ▸ consumes_assignment hk
    · exact same.trans (.absent (blocks_kind hk))
  | assigned target equals k =>
    simp only [giveExpression, assign]
    split
    · exact .leave _ rfl same
    · exact .leave _ rfl same
    · exact .note (by simp) rfl
  | operators l k =>
    simp only [giveExpression]
    split
    next hk =>
      refine .take _ (fun hn => ?_) (failed_operandTask l) (here ▸ ?_)
      · rw [hn] at hk
        cases l <;> cases hk
      · rw [ahead_operandTask]
        exact consumes_operations (look ▸ hk)
    next hk =>
      exact .leave _ rfl (same.trans (.done (blocks_token (look ▸ Bool.eq_false_iff.2 hk))))
  | rightOperand l left op k => exact .leave _ rfl same
  | operand op k => exact .leave _ rfl same
  | trailers k => exact advances_trailers h here
  | argument callee done k =>
    simp only [giveExpression]
    split
    next hk =>
      refine .take _ (by simp [hk]) rfl fun us => ?_
      rw [here]
      simp [Pending.ahead, Task.ahead, derives_many, ← look, hk, derives_phrase (n := .arguments),
        Nonterminal.rules]
    next hk =>
      refine advances_require h (by decide) (same.trans (.done (blocks_kind ?_))) (fun _ => rfl)
        fun _ => rfl
      exact look ▸ hk
  | group k | initializer name k | ifTest k | whileTest k | printed k | returned keyword k
  | expressionStatement k | forTest i k | forStep i test k =>
    exact advances_require h (by decide) same (fun _ => rfl) fun _ => rfl

theorem advances_giveStatement {stmt : Stmt} (k : Pending .statement) (h : s.eof.kind = .eof)
    (here : s.task.ahead = k.ahead) : Advances s (s.giveStatement stmt k) := by
  have same : Narrows s.next s.task.ahead k.ahead := here ▸ .refl _ _
  cases k with
  | thenBranch condition k =>
    refine advances_branch h (by decide) (fun _ => rfl) rfl (fun hk => ?_) fun hk => ?_
    · exact here ▸ consumes_else hk
    · exact same.trans (.absent (blocks_kind hk))
  | program done | declarations done k | elseBranch condition thenBranch k | whileBody condition k
  | forInitializer k | forBody i test step k =>
    exact .leave _ rfl same

/-- An optional part in front of a closing token. -/
theorem advances_optional {kind : Kind} {part items : List Item} {task : Token → Task} {left : Task}
    (h : s.eof.kind = .eof) (hk : kind ≠ .eof) (on : ∀ t, (task t).failed = false)
    (on_left : left.failed = false) (here : s.task.ahead = .optional part :: .kind kind :: items)
    (blocks : s.next.kind = kind → Blocks s.next (part ++ .kind kind :: items))
    (taken : (task s.next).ahead = items) (ahead : left.ahead = part ++ .kind kind :: items) :
    Advances s (s.branch kind task left) := by
  refine advances_branch h hk on on_left (fun ht => ?_) fun ht => ?_
  · rw [here, taken]
    exact (Narrows.absent (blocks ht)).consumes (consumes_kind ht)
  · rw [here, ahead]
    exact .present (blocks_kind ht)

/-- A list of parts up to a closing brace. -/
theorem advances_list {part items : List Item} {what : Expected} {p : Part} {k : Pending p}
    {closed more : Task} (h : s.eof.kind = .eof) (rest : ∀ t ∈ s.rest, t.kind ≠ .eof)
    (on_closed : closed.failed = false) (on_more : more.failed = false)
    (here : s.task.ahead = .many part :: .kind .rightBrace :: items)
    (blocks : s.next.kind = .eof ∨ s.next.kind = .rightBrace →
      Blocks s.next (part ++ .many part :: .kind .rightBrace :: items))
    (ahead_closed : closed.ahead = items)
    (ahead_more : more.ahead = part ++ .many part :: .kind .rightBrace :: items) :
    Advances s (match s.rest with
      | [] => s.missing what k
      | t :: _ => if t.kind = .rightBrace then s.take closed else s.goTo more) := by
  obtain ⟨task, ts, eof, n, errors⟩ := s
  cases ts with
  | nil =>
    refine .miss what k (here ▸ Narrows.blocks (.done (blocks (.inl h))) (blocks_kind ?_))
    exact fun hn => nomatch hn.symm.trans h
  | cons t ts =>
    dsimp only
    split
    next ht =>
      refine .take n (rest t (.head _)) on_closed ?_
      rw [here, ahead_closed]
      exact (Narrows.done (blocks (.inr ht))).consumes (consumes_kind ht)
    next ht => exact .leave n on_more (here ▸ ahead_more ▸ .more (blocks_kind ht))

theorem errors_require {kind : Kind} {what : Expected} {p : Part} {k : Pending p}
    {task : Token → Task} : (s.require kind what k task).errors = s.errors := by
  unfold require
  repeat' split
  all_goals rfl

/-- A parse that has not given up narrows down what is looked for at a token or takes the token, and
gives up where nothing is left; or it finds an error that it does not give up for. -/
theorem step_advances (s : State) (h : s.eof.kind = .eof) (rest : ∀ t ∈ s.rest, t.kind ≠ .eof)
    (on : s.task.failed = false) : Advances s s.step := by
  have look := look_eq_next h
  have single := @Narrows.rule s.next
  obtain ⟨task, ts, eof, n, errors⟩ := s
  cases task with
  | program done =>
    cases ts with
    | nil =>
      exact .leave n rfl (.done (blocks_declaration (by rw [← look]; rfl)))
    | cons t ts => exact .leave n rfl (.more (blocks_kind (rest t (.head _))))
  | declarations done k =>
    refine advances_list h rest rfl rfl rfl (fun hn => blocks_declaration ?_) rfl rfl
    rcases hn with hn | hn <;> rw [hn] <;> rfl
  | methods name done k =>
    refine advances_list h rest rfl rfl rfl (fun hn => ?_) rfl rfl
    refine (@single _ .function _ rfl).blocks (blocks_kind ?_)
    rcases hn with hn | hn <;> rw [hn] <;> decide
  | declaration k => exact advances_declaration h rfl
  | statement k => exact advances_statement h rfl
  | forInitializer k => exact advances_forInitializer h rfl
  | unary k => exact advances_unary h rfl
  | primary k => exact advances_primary h rfl
  | giveExpression e k => exact advances_giveExpression k h rfl
  | giveStatement stmt k => exact advances_giveStatement k h rfl
  | giveFunction f k => cases k <;> exact .leave n rfl (.refl _ _)
  | giveBody body k => cases k <;> exact .leave n rfl (.refl _ _)
  | className k | classOpen name k | callableOpen c name k | variableName k | forOpen k | ifOpen k
  | whileOpen k | property object k =>
    exact advances_require h (by decide) (.refl _ _) (fun _ => rfl) fun _ => rfl
  | callableName c k =>
    have function := @single k.ahead .function _ rfl
    exact advances_require h (by decide) function (fun _ => rfl) fun _ => rfl
  | callableBody c name params k =>
    have block := @single k.ahead .block _ rfl
    exact advances_require h (by decide) block (fun _ => rfl) fun _ => rfl
  | forTest i k | forStep i test k | returnValue keyword k =>
    exact advances_optional h (by decide) (fun _ => rfl) rfl rfl
      (fun ht => blocks_expression (by rw [ht]; rfl)) rfl rfl
  | parameters c name k =>
    have parameters := @single (.kind .rightParen :: .phrase .block :: k.ahead) .parameters _ rfl
    exact advances_optional h (by decide) (fun _ => rfl) rfl rfl
      (fun ht => parameters.blocks (blocks_kind (by rw [ht]; decide))) rfl rfl
  | arguments callee k =>
    have arguments := @single (.kind .rightParen :: k.ahead) .arguments _ rfl
    exact advances_optional h (by decide) (fun _ => rfl) rfl rfl
      (fun ht => arguments.blocks (blocks_expression (by rw [ht]; rfl))) rfl rfl
  | parameter c name done k =>
    have parameters := @single (.kind .rightParen :: .phrase .block :: k.ahead) .parameters _ rfl
    simp only [step]
    split
    · exact .note (by simp) errors_require
    · exact advances_require h (by decide) parameters (fun _ => rfl) fun _ => rfl
  | parameterEnd c name done k =>
    simp only [step]
    split
    next hk =>
      refine .take _ (by simp [hk]) rfl fun us => ?_
      simp [Task.ahead, derives_many, ← look, hk, derives_phrase (n := .parameters),
        Nonterminal.rules]
    next hk =>
      refine advances_require h (by decide) (.done (blocks_kind ?_)) (fun _ => rfl) fun _ => rfl
      exact look ▸ hk
  | variableValue name k =>
    simp only [step]
    split
    next hk =>
      have equal := look.symm.trans hk
      refine .take _ (by simp [hk]) rfl ?_
      exact Narrows.consumes (.present (blocks_kind (by rw [equal]; decide))) (consumes_kind equal)
    next hk =>
      refine advances_require h (by decide) (.absent (blocks_kind ?_)) (fun _ => rfl) fun _ => rfl
      exact look ▸ hk
  | expression k => exact .leave n rfl (.of_iff fun _ => derives_expression)
  | level l k =>
    have operations := @single k.ahead (.binary l) _ rfl
    exact .leave n (failed_operandTask l) (ahead_operandTask l ▸ operations)
  | argument callee done k =>
    have arguments := @single (.kind .rightParen :: k.ahead) .arguments _ rfl
    simp only [step]
    split
    · exact .note (by simp) rfl
    · exact .leave n rfl arguments
  | fail e k => cases on
  | finished program => exact .leave n rfl (.refl _ _)

end

/-! ## The first error -/

end State

/-- A program of the relaxed grammar starts with the tokens. -/
def Viable (ts : List Token) : Prop := ∃ rest, Derives [.phrase .program] (ts ++ rest)

namespace State

/-- Behind the tokens taken, what is looked for derives what a program can go on with, and all of it
that starts with the next token. -/
structure Looks (taken : List Token) (s : State) : Prop where
  derives : ∀ us, Derives s.task.ahead us → Derives [.phrase .program] (taken ++ us)
  covers : ∀ us, Derives [.phrase .program] (taken ++ s.next :: us) →
    Derives s.task.ahead (s.next :: us)

/-- The parse has given up, without an error before: something could have followed the tokens taken,
but not the next token. -/
structure Stuck (taken : List Token) (s : State) (e : StaticError) : Prop where
  task : ∃ (p : Part) (k : Pending p), s.task = .fail e k
  error : ∃ what, e = .syntactic s.next (.expected what)
  errors : s.errors = []
  viable : Viable taken
  dead : ¬Viable (taken ++ [s.next])

/-- How a parse of the tokens stands to its first error. -/
inductive Stands (ts : List Token) (start s : State) : Prop
  | looking (taken : List Token) : taken ++ s.rest = ts → s.errors = [] → s.task.failed = false →
    Looks taken s → Stands ts start s
  | stuck (taken : List Token) (e : StaticError) : taken ++ s.rest = ts → Stuck taken s e →
    Stands ts start s
  | past (taken : List Token) (e : StaticError) (u : State) : Leads start u → taken ++ u.rest = ts →
    Stuck taken u e → s.errors.getLast? = some e → Stands ts start s
  | noted (t : Token) (fault : SyntaxFault) : s.errors.getLast? = some (.syntactic t fault) →
    (∀ what, fault ≠ .expected what) → Stands ts start s

section

variable {ts taken : List Token} {start s s' : State} {e : StaticError}

theorem getLast?_of_grows (h : Grows s s') (last : s.errors.getLast? = some e) :
    s'.errors.getLast? = some e := by
  obtain ⟨newer, split⟩ := h.errors
  rw [← split, List.getLast?_append, last]
  rfl

theorem Looks.stuck {what : Expected} {p : Part} {k : Pending p} (looks : Looks taken s)
    (clean : s.errors = []) (blocks : Blocks s.next s.task.ahead) :
    Stuck taken (s.missing what k) (.syntactic s.next (.expected what)) where
  task := ⟨p, k, rfl⟩
  error := ⟨what, rfl⟩
  errors := clean
  viable := s.task.productive_ahead.imp looks.derives
  dead := by
    rintro ⟨us, derived⟩
    rw [List.append_assoc] at derived
    exact blocks us (looks.covers us derived)

theorem looking_step (looks : Looks taken s) (split : taken ++ s.rest = ts) (clean : s.errors = [])
    (advances : Advances s s') : Stands ts start s' := by
  obtain ⟨task, rest, eof, n, errors⟩ := s
  cases advances with
  | leave m on narrows =>
    refine .looking taken split clean on ⟨fun us derived => ?_, fun us derived => ?_⟩
    · exact looks.derives us (narrows.derives us derived)
    · exact narrows.covers us (looks.covers us derived)
  | take m more on consumes =>
    cases rest with
    | nil => exact absurd rfl more
    | cons t rest =>
      refine .looking (taken ++ [t]) ?_ clean on ⟨fun us derived => ?_, fun us derived => ?_⟩
      · rw [← split, List.append_assoc]
        rfl
      · rw [List.append_assoc]
        exact looks.derives _ ((consumes us).2 derived)
      · rw [List.append_assoc] at derived
        exact (consumes _).1 (looks.covers _ derived)
  | miss what k blocks => exact .stuck taken _ split (looks.stuck clean blocks)
  | @note _ t fault other noted =>
    refine .noted t fault ?_ other
    rw [noted, clean]
    rfl

/-- What has given up goes on giving up, or notes its error. -/
theorem stuck_step (leads : Leads start s) (split : taken ++ s.rest = ts) (h : Stuck taken s e) :
    Stands ts start s.step := by
  obtain ⟨⟨p, k, task⟩, error, clean, viable, dead⟩ := h
  obtain ⟨now, rest, eof, n, errors⟩ := s
  cases task
  cases k with
  | program done | declarations done k =>
    refine .past taken e _ leads split ⟨⟨_, _, rfl⟩, error, clean, viable, dead⟩ ?_
    cases clean
    rfl
  | _ => exact .stuck taken e split ⟨⟨_, _, rfl⟩, error, clean, viable, dead⟩

theorem stands_step (h : s.eof.kind = .eof) (ends : ∀ t ∈ ts, t.kind ≠ .eof) (leads : Leads start s)
    (stands : Stands ts start s) : Stands ts start s.step := by
  cases stands with
  | looking taken split clean on looks =>
    refine looking_step looks split clean (step_advances s h (fun t mem => ends t ?_) on)
    exact split ▸ List.mem_append_right taken mem
  | stuck taken e split stuck => exact stuck_step leads split stuck
  | past taken e u before split stuck last =>
    exact .past taken e u before split stuck (getLast?_of_grows (grows_step s) last)
  | noted t fault last other =>
    exact .noted t fault (getLast?_of_grows (grows_step s) last) other

/-- At all times, and so at its end. -/
theorem stands_leads (h : start.eof.kind = .eof) (ends : ∀ t ∈ ts, t.kind ≠ .eof)
    (leads : Leads start s) (stands : Stands ts start s) (further : Leads s s') :
    Stands ts start s' := by
  induction further with
  | refl s => exact stands
  | @step s s' further ih =>
    have next : Leads start s.step := leads.trans (.step (.refl _))
    exact ih next (stands_step (leads.eof ▸ h) ends leads stands)

theorem leads_run (s : State) : Leads s s.run := by
  induction s using run.induct with
  | case1 s ended =>
    rw [run, if_pos ended]
    exact .refl s
  | case2 s unfinished ih =>
    rw [run_step]
    exact .step ih

end

end State

theorem stands_start {ts : List Token} (n : Nat) (eof : Token) :
    State.Stands ts ⟨.program [], ts, eof, n, []⟩ ⟨.program [], ts, eof, n, []⟩ := by
  refine .looking [] rfl rfl rfl ⟨fun us derived => ?_, fun us derived => ?_⟩
  · exact .phrase (.head _) derived
  · exact (Narrows.rule rfl).covers us derived

/-- The first error of a parse is the oldest it has noted in the end. -/
theorem getLast?_of_program {n : Nat} {tokens : List Token} {e : StaticError}
    {others : List StaticError} (h : (program n tokens).program = .error (e :: others)) :
    (State.start n tokens).run.errors.getLast? = some e := by
  simp only [program] at h
  split at h
  · cases h
  · rw [← List.head?_reverse, Except.error.inj h]
    rfl

/-- At a place behind the tokens that are taken the others are left. -/
theorem take_of_at {ts taken : List Token} {eof : Token} {s : State} {position : Nat}
    (ends : ∀ t ∈ ts, t.kind ≠ .eof) (he : eof.kind = .eof) (split : taken ++ s.rest = ts)
    (place : s.At (ts ++ [eof]) position) : (ts ++ [eof]).take position = taken := by
  have le : position ≤ ts.length := by
    refine place.le.trans (Nat.le_of_eq ?_)
    rw [List.findIdx_append, List.findIdx_eq_length.2 (by simpa using ends)]
    simp [he]
  have rest := place.rest
  rw [List.drop_append_of_le_length le,
    Grammar.takeWhile_append_eof (fun t mem => ends t (List.mem_of_mem_drop mem)) he] at rest
  rw [List.take_append_of_le_length le]
  refine (List.append_left_inj s.rest).1 ?_
  rw [split, ← rest, List.take_append_drop]

/-- A first error that a parse gives up for is found as early as can be. The parse gives up at a place
of its tokens, without an error before: a program of the relaxed grammar starts with the tokens in
front of it, and none starts with those and the one that the error is blamed on. -/
theorem first_error_earliest {ts : List Token} {eof t : Token} {what : Expected}
    {others : List StaticError} (n : Nat) (ends : ∀ t ∈ ts, t.kind ≠ .eof) (he : eof.kind = .eof)
    (h : (program n (ts ++ [eof])).program = .error (.syntactic t (.expected what) :: others)) :
    ∃ position, (ts ++ [eof])[position]? = some t ∧
      (∃ (s : State) (p : Part) (k : Pending p), State.Leads (.start n (ts ++ [eof])) s ∧
        s.At (ts ++ [eof]) position ∧ s.errors = [] ∧
        s.task = .fail (.syntactic t (.expected what)) k) ∧
      Viable ((ts ++ [eof]).take position) ∧ ¬Viable ((ts ++ [eof]).take (position + 1)) := by
  have last := getLast?_of_program h
  have stands : State.Stands ts _ _ := stands_start n eof
  rw [← Grammar.start_append_eof ends he] at stands
  have eof_start : (State.start n (ts ++ [eof])).eof.kind = .eof := by
    rw [Grammar.start_append_eof ends he]
    exact he
  cases State.stands_leads eof_start ends (.refl _) stands (State.leads_run _) with
  | looking taken split clean on looks => rw [clean] at last; cases last
  | stuck taken e split stuck => rw [stuck.errors] at last; cases last
  | noted t' fault last' other =>
    rw [last'] at last
    cases last
    exact absurd rfl (other what)
  | past taken e s leads split stuck last' =>
    obtain rfl : e = _ := Option.some.inj (last'.symm.trans last)
    obtain ⟨⟨p, k, task⟩, ⟨what', error⟩, clean, viable, dead⟩ := stuck
    cases error
    obtain ⟨position, place⟩ := leads.exists_at
    have closed : closed (ts ++ [eof]) = ts ++ [eof] := by simp [closed, he]
    rw [closed] at place
    have taken := take_of_at ends he split place
    refine ⟨position, place.next, ⟨s, p, k, leads, place, clean, task⟩, taken ▸ viable, ?_⟩
    rw [List.take_add_one, taken, place.next]
    exact dead

/-- Something can follow `a +`, but no semicolon. -/
theorem first_error_earliest_operand :
    let a : Token := ⟨.identifier, "a", 1⟩
    let plus : Token := ⟨.plus, "+", 1⟩
    let semicolon : Token := ⟨.semicolon, ";", 1⟩
    (program 0 ([a, plus, semicolon] ++ [.endOn 1])).program =
        .error [.syntactic semicolon (.expected .expression)] ∧
      Viable [a, plus] ∧ ¬Viable [a, plus, semicolon] := by
  intro a plus semicolon
  have errors : (program 0 ([a, plus, semicolon] ++ [.endOn 1])).program.map (fun _ => ()) =
      .error [.syntactic semicolon (.expected .expression)] := by decide +kernel
  have failed : (program 0 ([a, plus, semicolon] ++ [.endOn 1])).program =
      .error [.syntactic semicolon (.expected .expression)] := by
    generalize (program 0 ([a, plus, semicolon] ++ [.endOn 1])).program = result at errors
    cases result <;> cases errors
    rfl
  obtain ⟨position, blamed, -, viable, dead⟩ :=
    first_error_earliest 0 (by decide) rfl failed
  obtain rfl : position = 2 := by
    rcases position with _ | _ | _ | _ | _ <;>
      simp [a, plus, semicolon, Token.endOn] at blamed ⊢
  exact ⟨failed, viable, dead⟩

end Parse

end Lox
