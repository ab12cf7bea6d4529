/-
The grammar with its rules for targets and for lengths relaxed: anything that `or` can stand in may be
assigned to, and lists of parameters and arguments may be of any length. Its rules are data, in the
notation that grammars are written in, and what they derive is a list of tokens (`Derives`), taken from
the left: the first item of those that are looked for is replaced by a rule, or stands for the next
token.

A token that no derivation of some items starts with is said to be blocked by them (`Blocks`); no list
of items is without a derivation (`Productive`).
-/
import Lox.Proofs.Grammar.Complete

namespace Lox.Grammar

open Parse

/-! ## Rules -/

inductive Nonterminal
  | program
  | declaration
  | classDecl
  | funDecl
  | function
  | parameters
  | varDecl
  | statement
  | exprStmt
  | forStmt
  | ifStmt
  | printStmt
  | returnStmt
  | whileStmt
  | block
  | expression
  | assignment
  | binary (l : Level)
  | unary
  | call
  | arguments
  | primary

/-- A part of a rule. -/
inductive Item
  /-- One token of the kinds that are admitted. -/
  | token (admits : Kind → Bool)
  | phrase (n : Nonterminal)
  /-- `( a | b )` -/
  | choice (alternatives : List (List Item))
  /-- `( a )?` -/
  | optional (part : List Item)
  /-- `( a )*` -/
  | many (part : List Item)

/-- A token of the given kind. -/
abbrev Item.kind (kind : Kind) : Item := .token fun k => k = kind

/-- What the operators of a level stand between. -/
def operand (l : Level) : Item :=
  match l.tighter? with
  | some l => .phrase (.binary l)
  | none => .phrase .unary

/-- `( operator operand )*` -/
def operations (l : Level) : Item := .many [.token l.admits, operand l]

/-- `( "(" arguments? ")" | "." IDENT )*` -/
def trailers : Item :=
  .many [.choice [[.kind .leftParen, .optional [.phrase .arguments], .kind .rightParen],
    [.kind .dot, .kind .identifier]]]

/-- The right sides of a nonterminal's rules. -/
def Nonterminal.rules : Nonterminal → List (List Item)
  | program => [[.many [.phrase .declaration], .kind .eof]]
  | declaration =>
    [[.phrase .classDecl], [.phrase .funDecl], [.phrase .varDecl], [.phrase .statement]]
  | classDecl =>
    [[.kind .class, .kind .identifier, .kind .leftBrace, .many [.phrase .function],
      .kind .rightBrace]]
  | funDecl => [[.kind .fun, .phrase .function]]
  | function =>
    [[.kind .identifier, .kind .leftParen, .optional [.phrase .parameters], .kind .rightParen,
      .phrase .block]]
  | parameters => [[.kind .identifier, .many [.kind .comma, .kind .identifier]]]
  | varDecl =>
    [[.kind .var, .kind .identifier, .optional [.kind .equal, .phrase .expression],
      .kind .semicolon]]
  | statement =>
    [[.phrase .exprStmt], [.phrase .forStmt], [.phrase .ifStmt], [.phrase .printStmt],
      [.phrase .returnStmt], [.phrase .whileStmt], [.phrase .block]]
  | exprStmt => [[.phrase .expression, .kind .semicolon]]
  | forStmt =>
    [[.kind .for, .kind .leftParen,
      .choice [[.phrase .varDecl], [.phrase .exprStmt], [.kind .semicolon]],
      .optional [.phrase .expression], .kind .semicolon, .optional [.phrase .expression],
      .kind .rightParen, .phrase .statement]]
  | ifStmt =>
    [[.kind .if, .kind .leftParen, .phrase .expression, .kind .rightParen, .phrase .statement,
      .optional [.kind .else, .phrase .statement]]]
  | printStmt => [[.kind .print, .phrase .expression, .kind .semicolon]]
  | returnStmt => [[.kind .return, .optional [.phrase .expression], .kind .semicolon]]
  | whileStmt =>
    [[.kind .while, .kind .leftParen, .phrase .expression, .kind .rightParen, .phrase .statement]]
  | block => [[.kind .leftBrace, .many [.phrase .declaration], .kind .rightBrace]]
  | expression => [[.phrase .assignment]]
  | assignment =>
    [[.phrase (.binary .or), .kind .equal, .phrase .assignment], [.phrase (.binary .or)]]
  | binary l => [[operand l, operations l]]
  | unary => [[.token fun k => k = .bang || k = .minus, .phrase .unary], [.phrase .call]]
  | call => [[.phrase .primary, trailers]]
  | arguments => [[.phrase .expression, .many [.kind .comma, .phrase .expression]]]
  | primary =>
    [[.token fun k => (literal? k).isSome], [.kind .identifier],
      [.kind .leftParen, .phrase .expression, .kind .rightParen]]

/-! ## Derivations -/

/-- The items, one behind the other, derive the tokens. -/
inductive Derives : List Item → List Token → Prop
  | nil : Derives [] []
  | token {admits : Kind → Bool} {items : List Item} {t : Token} {ts : List Token} :
    admits t.kind = true → Derives items ts → Derives (.token admits :: items) (t :: ts)
  | phrase {n : Nonterminal} {rule items : List Item} {ts : List Token} :
    rule ∈ n.rules → Derives (rule ++ items) ts → Derives (.phrase n :: items) ts
  | choice {alternatives : List (List Item)} {alternative items : List Item} {ts : List Token} :
    alternative ∈ alternatives → Derives (alternative ++ items) ts →
      Derives (.choice alternatives :: items) ts
  | absent {part items : List Item} {ts : List Token} : Derives items ts →
    Derives (.optional part :: items) ts
  | present {part items : List Item} {ts : List Token} : Derives (part ++ items) ts →
    Derives (.optional part :: items) ts
  | done {part items : List Item} {ts : List Token} : Derives items ts →
    Derives (.many part :: items) ts
  | more {part items : List Item} {ts : List Token} : Derives (part ++ .many part :: items) ts →
    Derives (.many part :: items) ts

section

variable {admits : Kind → Bool} {n : Nonterminal} {items items' part : List Item}
  {alternatives : List (List Item)} {t : Token} {ts us : List Token}

@[simp] theorem derives_token :
    Derives (.token admits :: items) (t :: ts) ↔ admits t.kind = true ∧ Derives items ts := by
  constructor
  · intro h
    cases h with
    | token admitted rest => exact ⟨admitted, rest⟩
  · rintro ⟨admitted, rest⟩
    exact .token admitted rest

theorem derives_phrase :
    Derives (.phrase n :: items) ts ↔ ∃ rule ∈ n.rules, Derives (rule ++ items) ts := by
  constructor
  · intro h
    cases h with
    | phrase mem rest => exact ⟨_, mem, rest⟩
  · rintro ⟨rule, mem, rest⟩
    exact .phrase mem rest

theorem derives_choice : Derives (.choice alternatives :: items) ts ↔
    ∃ alternative ∈ alternatives, Derives (alternative ++ items) ts := by
  constructor
  · intro h
    cases h with
    | choice mem rest => exact ⟨_, mem, rest⟩
  · rintro ⟨alternative, mem, rest⟩
    exact .choice mem rest

theorem derives_optional :
    Derives (.optional part :: items) ts ↔ Derives items ts ∨ Derives (part ++ items) ts := by
  constructor
  · intro h
    cases h with
    | absent rest => exact .inl rest
    | present rest => exact .inr rest
  · rintro (rest | rest)
    · exact .absent rest
    · exact .present rest

theorem derives_many : Derives (.many part :: items) ts ↔
    Derives items ts ∨ Derives (part ++ .many part :: items) ts := by
  constructor
  · intro h
    cases h with
    | done rest => exact .inl rest
    | more rest => exact .inr rest
  · rintro (rest | rest)
    · exact .done rest
    · exact .more rest

theorem Derives.append (h : Derives items ts) (h' : Derives items' us) :
    Derives (items ++ items') (ts ++ us) := by
  induction h with
  | nil => exact h'
  | token admitted _ ih => exact .token admitted ih
  | phrase mem _ ih => exact .phrase mem (by rwa [List.append_assoc] at ih)
  | choice mem _ ih => exact .choice mem (by rwa [List.append_assoc] at ih)
  | absent _ ih => exact .absent ih
  | present _ ih => exact .present (by rwa [List.append_assoc] at ih)
  | done _ ih => exact .done ih
  | more _ ih => exact .more (by rwa [List.append_assoc] at ih)

/-- What items derive is what the first of them derive in front of what the others do. -/
theorem exists_of_derives_append (h : Derives (items ++ items') ts) :
    ∃ us vs, ts = us ++ vs ∧ Derives items us ∧ Derives items' vs := by
  -- no items derive no tokens, so only the first of some items has to be looked at
  have none : ∀ {all ts}, Derives all ts → ∃ us vs, ts = us ++ vs ∧ Derives [] us ∧ Derives all vs :=
    fun {_ ts} h => ⟨[], ts, rfl, .nil, h⟩
  generalize whole : items ++ items' = all at h
  induction h generalizing items with
  | nil =>
    obtain ⟨rfl, rfl⟩ := List.append_eq_nil_iff.1 whole
    exact none .nil
  | @token admits others t ts admitted rest ih =>
    rcases List.append_eq_cons_iff.1 whole with ⟨rfl, rfl⟩ | ⟨items, rfl, rfl⟩
    · exact none (.token admitted rest)
    · obtain ⟨us, vs, rfl, first, second⟩ := ih rfl
      exact ⟨t :: us, vs, rfl, .token admitted first, second⟩
  | @phrase n rule others ts mem rest ih =>
    rcases List.append_eq_cons_iff.1 whole with ⟨rfl, rfl⟩ | ⟨items, rfl, rfl⟩
    · exact none (.phrase mem rest)
    · obtain ⟨us, vs, rfl, first, second⟩ := ih (List.append_assoc ..)
      exact ⟨us, vs, rfl, .phrase mem first, second⟩
  | @choice alternatives alternative others ts mem rest ih =>
    rcases List.append_eq_cons_iff.1 whole with ⟨rfl, rfl⟩ | ⟨items, rfl, rfl⟩
    · exact none (.choice mem rest)
    · obtain ⟨us, vs, rfl, first, second⟩ := ih (List.append_assoc ..)
      exact ⟨us, vs, rfl, .choice mem first, second⟩
  | @absent part others ts rest ih =>
    rcases List.append_eq_cons_iff.1 whole with ⟨rfl, rfl⟩ | ⟨items, rfl, rfl⟩
    · exact none (.absent rest)
    · obtain ⟨us, vs, rfl, first, second⟩ := ih rfl
      exact ⟨us, vs, rfl, .absent first, second⟩
  | @present part others ts rest ih =>
    rcases List.append_eq_cons_iff.1 whole with ⟨rfl, rfl⟩ | ⟨items, rfl, rfl⟩
    · exact none (.present rest)
    · obtain ⟨us, vs, rfl, first, second⟩ := ih (List.append_assoc ..)
      exact ⟨us, vs, rfl, .present first, second⟩
  | @done part others ts rest ih =>
    rcases List.append_eq_cons_iff.1 whole with ⟨rfl, rfl⟩ | ⟨items, rfl, rfl⟩
    · exact none (.done rest)
    · obtain ⟨us, vs, rfl, first, second⟩ := ih rfl
      exact ⟨us, vs, rfl, .done first, second⟩
  | @more part others ts rest ih =>
    rcases List.append_eq_cons_iff.1 whole with ⟨rfl, rfl⟩ | ⟨items, rfl, rfl⟩
    · exact none (.more rest)
    · obtain ⟨us, vs, rfl, first, second⟩ := ih (List.append_assoc part (.many part :: items) items')
      exact ⟨us, vs, rfl, .more first, second⟩

/-- Behind other items, items can be replaced by some that derive more. -/
theorem Derives.mono (first : List Item) (h : Derives (first ++ items) ts)
    (wider : ∀ us, Derives items us → Derives items' us) : Derives (first ++ items') ts := by
  obtain ⟨us, vs, rfl, before, behind⟩ := exists_of_derives_append h
  exact before.append (wider vs behind)

end

/-! ## First tokens -/

/-- No list of tokens that starts with the token is derived. -/
def Blocks (t : Token) (items : List Item) : Prop := ∀ us, ¬Derives items (t :: us)

section

variable {items items' : List Item} {t : Token} {us : List Token}

theorem starts_primary (h : Derives (.phrase .primary :: items) (t :: us)) :
    startsPrimary t.kind = true := by
  obtain ⟨rule, mem, derived⟩ := derives_phrase.1 h
  simp only [Nonterminal.rules, List.mem_cons, List.not_mem_nil, or_false] at mem
  rcases mem with rfl | rfl | rfl
  · obtain ⟨l, literal⟩ := Option.isSome_iff_exists.1 (derives_token.1 derived).1
    exact startsPrimary_of_literal literal
  · rw [of_decide_eq_true (derives_token.1 derived).1]
    rfl
  · rw [of_decide_eq_true (derives_token.1 derived).1]
    rfl

theorem starts_unary (h : Derives (.phrase .unary :: items) (t :: us)) :
    startsExpression t.kind = true := by
  obtain ⟨rule, mem, derived⟩ := derives_phrase.1 h
  simp only [Nonterminal.rules, List.mem_cons, List.not_mem_nil, or_false] at mem
  rcases mem with rfl | rfl
  · have operator : t.kind = .bang ∨ t.kind = .minus := by simpa using (derives_token.1 derived).1
    rcases operator with h | h <;> rw [h] <;> rfl
  · obtain ⟨rule, mem, derived⟩ := derives_phrase.1 derived
    obtain rfl := List.mem_singleton.1 mem
    exact startsExpression_of_primary (starts_primary derived)

/-- Operators stand between operands, and the tightest of them between prefix expressions. -/
theorem starts_binary (l : Level) (h : Derives (.phrase (.binary l) :: items) (t :: us)) :
    startsExpression t.kind = true := by
  have first : ∀ {l : Level} {items}, Derives (.phrase (.binary l) :: items) (t :: us) →
      ∃ items', Derives (operand l :: items') (t :: us) := fun h => by
    obtain ⟨rule, mem, derived⟩ := derives_phrase.1 h
    obtain rfl := List.mem_singleton.1 mem
    exact ⟨_, derived⟩
  have factor : ∀ {items}, Derives (.phrase (.binary .factor) :: items) (t :: us) →
      startsExpression t.kind = true := fun h => (first h).elim fun _ => starts_unary
  have term : ∀ {items}, Derives (.phrase (.binary .term) :: items) (t :: us) →
      startsExpression t.kind = true := fun h => (first h).elim fun _ => factor
  have comparison : ∀ {items}, Derives (.phrase (.binary .comparison) :: items) (t :: us) →
      startsExpression t.kind = true := fun h => (first h).elim fun _ => term
  have equality : ∀ {items}, Derives (.phrase (.binary .equality) :: items) (t :: us) →
      startsExpression t.kind = true := fun h => (first h).elim fun _ => comparison
  have and : ∀ {items}, Derives (.phrase (.binary .and) :: items) (t :: us) →
      startsExpression t.kind = true := fun h => (first h).elim fun _ => equality
  cases l with
  | or => exact (first h).elim fun _ => and
  | and => exact and h
  | equality => exact equality h
  | comparison => exact comparison h
  | term => exact term h
  | factor => exact factor h

theorem starts_expression (h : Derives (.phrase .expression :: items) (t :: us)) :
    startsExpression t.kind = true := by
  obtain ⟨rule, mem, derived⟩ := derives_phrase.1 h
  obtain rfl := List.mem_singleton.1 mem
  obtain ⟨rule, mem, derived⟩ := derives_phrase.1 derived
  simp only [Nonterminal.rules, List.mem_cons, List.not_mem_nil, or_false] at mem
  rcases mem with rfl | rfl <;> exact starts_binary .or derived

/-- What cannot start an expression keeps one from being derived. -/
theorem blocks_expression (h : startsExpression t.kind = false) :
    Blocks t (.phrase .expression :: items) := by
  intro us derived
  rw [starts_expression derived] at h
  cases h

/-- A statement is told by its first token. -/
theorem derives_statement : Derives (.phrase .statement :: items) (t :: us) ↔
    Derives (.phrase .expression :: .kind .semicolon :: items) (t :: us) ∨
    t.kind = .for ∧ Derives ([.kind .leftParen,
      .choice [[.phrase .varDecl], [.phrase .exprStmt], [.kind .semicolon]],
      .optional [.phrase .expression], .kind .semicolon, .optional [.phrase .expression],
      .kind .rightParen, .phrase .statement] ++ items) us ∨
    t.kind = .if ∧ Derives ([.kind .leftParen, .phrase .expression, .kind .rightParen,
      .phrase .statement, .optional [.kind .else, .phrase .statement]] ++ items) us ∨
    t.kind = .print ∧ Derives ([.phrase .expression, .kind .semicolon] ++ items) us ∨
    t.kind = .return ∧
      Derives ([.optional [.phrase .expression], .kind .semicolon] ++ items) us ∨
    t.kind = .while ∧ Derives ([.kind .leftParen, .phrase .expression, .kind .rightParen,
      .phrase .statement] ++ items) us ∨
    t.kind = .leftBrace ∧
      Derives ([.many [.phrase .declaration], .kind .rightBrace] ++ items) us := by
  simp [derives_phrase (n := .statement), derives_phrase (n := .exprStmt),
    derives_phrase (n := .forStmt), derives_phrase (n := .ifStmt), derives_phrase (n := .printStmt),
    derives_phrase (n := .returnStmt), derives_phrase (n := .whileStmt),
    derives_phrase (n := .block), Nonterminal.rules]

/-- So is a declaration. -/
theorem derives_declaration : Derives (.phrase .declaration :: items) (t :: us) ↔
    t.kind = .class ∧ Derives ([.kind .identifier, .kind .leftBrace, .many [.phrase .function],
      .kind .rightBrace] ++ items) us ∨
    t.kind = .fun ∧ Derives (.phrase .function :: items) us ∨
    t.kind = .var ∧ Derives ([.kind .identifier, .optional [.kind .equal, .phrase .expression],
      .kind .semicolon] ++ items) us ∨
    Derives (.phrase .statement :: items) (t :: us) := by
  simp [derives_phrase (n := .declaration), derives_phrase (n := .classDecl),
    derives_phrase (n := .funDecl), derives_phrase (n := .varDecl), Nonterminal.rules]

theorem starts_declaration (h : Derives (.phrase .declaration :: items) (t :: us)) :
    Phrase.declaration.starts t.kind = true := by
  rcases derives_declaration.1 h with ⟨kind, -⟩ | ⟨kind, -⟩ | ⟨kind, -⟩ | h
  · rw [kind]; rfl
  · rw [kind]; rfl
  · rw [kind]; rfl
  · rcases derives_statement.1 h with h | ⟨kind, -⟩ | ⟨kind, -⟩ | ⟨kind, -⟩ | ⟨kind, -⟩ | ⟨kind, -⟩ |
      ⟨kind, -⟩
    · simp [Phrase.starts, starts_expression h]
    all_goals rw [kind]; rfl

/-- Neither does what cannot start a declaration let one be derived. -/
theorem blocks_declaration (h : Phrase.declaration.starts t.kind = false) :
    Blocks t (.phrase .declaration :: items) := by
  intro us derived
  rw [starts_declaration derived] at h
  cases h

/-- An expression starts with operands and operators, and may go on as an assignment. -/
theorem derives_expression : Derives (.phrase .expression :: items) us ↔
    Derives (.phrase (.binary .or) :: .optional [.kind .equal, .phrase .expression] :: items) us := by
  have same : ∀ {others : List Item} {vs},
      Derives (.phrase .expression :: others) vs ↔ Derives (.phrase .assignment :: others) vs := by
    simp [derives_phrase (n := .expression), Nonterminal.rules]
  rw [same, derives_phrase]
  constructor
  · rintro ⟨rule, mem, derived⟩
    simp only [Nonterminal.rules, List.mem_cons, List.not_mem_nil, or_false] at mem
    rcases mem with rfl | rfl
    · have value : Derives ([.phrase (.binary .or), .kind .equal] ++ .phrase .expression :: items) us :=
        Derives.mono [.phrase (.binary .or), .kind .equal] derived fun _ => same.2
      exact Derives.mono [.phrase (.binary .or)] value fun _ => derives_optional.2 ∘ .inr
    · exact Derives.mono [.phrase (.binary .or)] derived fun _ => .absent
  · intro derived
    obtain ⟨first, second, rfl, target, behind⟩ :=
      @exists_of_derives_append [.phrase (.binary .or)] _ _ derived
    rcases derives_optional.1 behind with behind | behind
    · exact ⟨_, .tail _ (.head _), target.append behind⟩
    · exact ⟨_, .head _, target.append (Derives.mono [.kind .equal] behind fun _ => same.1)⟩

theorem derives_primary : Derives (.phrase .primary :: items) (t :: us) ↔
    (literal? t.kind).isSome ∧ Derives items us ∨ t.kind = .identifier ∧ Derives items us ∨
    t.kind = .leftParen ∧ Derives (.phrase .expression :: .kind .rightParen :: items) us := by
  simp [derives_phrase (n := .primary), Nonterminal.rules]

end

/-! ## Every item derives something -/

/-- The items derive a list of tokens. -/
def Productive (items : List Item) : Prop := ∃ ts, Derives items ts

def Item.Productive (item : Item) : Prop := Grammar.Productive [item]

section

variable {kind : Kind} {n : Nonterminal} {item : Item} {items part alternative : List Item}
  {alternatives : List (List Item)}

@[simp] theorem productive_nil : Productive [] := ⟨[], .nil⟩

@[simp] theorem productive_cons : Productive (item :: items) ↔ item.Productive ∧ Productive items := by
  constructor
  · rintro ⟨ts, derived⟩
    obtain ⟨us, vs, -, first, behind⟩ := @exists_of_derives_append [item] items _ derived
    exact ⟨⟨us, first⟩, vs, behind⟩
  · rintro ⟨⟨us, first⟩, vs, behind⟩
    exact ⟨us ++ vs, first.append behind⟩

theorem Item.Productive.phrase {rule : List Item} (mem : rule ∈ n.rules)
    (h : Grammar.Productive rule) : (Item.phrase n).Productive :=
  h.imp fun _ derived => .phrase mem (by rwa [List.append_nil])

theorem Item.Productive.choice (mem : alternative ∈ alternatives)
    (h : Grammar.Productive alternative) : (Item.choice alternatives).Productive :=
  h.imp fun _ derived => .choice mem (by rwa [List.append_nil])

@[simp] theorem productive_kind : (Item.kind kind).Productive :=
  ⟨[⟨kind, "", 1⟩], .token (decide_eq_true rfl) .nil⟩

@[simp] theorem productive_optional : (Item.optional part).Productive := ⟨[], .absent .nil⟩

@[simp] theorem productive_many : (Item.many part).Productive := ⟨[], .done .nil⟩

@[simp] theorem productive_primary : (Item.phrase .primary).Productive :=
  .phrase (.head _) ⟨[⟨.nil, "nil", 1⟩], .token rfl .nil⟩

@[simp] theorem productive_unary : (Item.phrase .unary).Productive := by
  have call : (Item.phrase .call).Productive := .phrase (.head _) (by simp [trailers])
  exact .phrase (.tail _ (.head _)) (by simp [call])

@[simp] theorem productive_binary (l : Level) : (Item.phrase (.binary l)).Productive := by
  have of_operand : ∀ {l}, (operand l).Productive → (Item.phrase (.binary l)).Productive :=
    fun h => .phrase (.head _) (by simp [h, operations])
  have factor : (Item.phrase (.binary .factor)).Productive := of_operand productive_unary
  have term : (Item.phrase (.binary .term)).Productive := of_operand factor
  have comparison : (Item.phrase (.binary .comparison)).Productive := of_operand term
  have equality : (Item.phrase (.binary .equality)).Productive := of_operand comparison
  have and : (Item.phrase (.binary .and)).Productive := of_operand equality
  cases l with
  | or => exact of_operand and
  | and => exact and
  | equality => exact equality
  | comparison => exact comparison
  | term => exact term
  | factor => exact factor

@[simp] theorem productive_operand (l : Level) : (operand l).Productive := by
  cases l <;> simp [operand, Level.tighter?]

@[simp] theorem productive_expression : (Item.phrase .expression).Productive := by
  have assignment : (Item.phrase .assignment).Productive := .phrase (.tail _ (.head _)) (by simp)
  exact .phrase (.head _) (by simp [assignment])

@[simp] theorem productive_statement : (Item.phrase .statement).Productive := by
  have ended : (Item.phrase .exprStmt).Productive := .phrase (.head _) (by simp)
  exact .phrase (.head _) (by simp [ended])

@[simp] theorem productive_declaration : (Item.phrase .declaration).Productive :=
  .phrase (.tail _ (.tail _ (.tail _ (.head _)))) (by simp)

@[simp] theorem productive_block : (Item.phrase .block).Productive := .phrase (.head _) (by simp)

@[simp] theorem productive_function : (Item.phrase .function).Productive :=
  .phrase (.head _) (by simp)

@[simp] theorem productive_parameters : (Item.phrase .parameters).Productive :=
  .phrase (.head _) (by simp)

@[simp] theorem productive_arguments : (Item.phrase .arguments).Productive :=
  .phrase (.head _) (by simp)

end

end Lox.Grammar
