/-
What the parser at an index comes to. What a state has left are the tokens from that index up to the
first end of source (`Fits`); there every check of the parser, every token it takes and every skip is
that of the state, so a step of one is a step of the other, and does not fail (`step?_indexed`).

The main result is `Parser.in_bounds`: every parse ends, at the first end of source at the latest, and
what stands behind that is not read.
-/
import Lox.Parse.Cursor
import Lox.Proofs.Grammar.Progress

namespace Lox

/-! ## Kinds that are looked for -/

/-- The kinds that carry nothing, but for the end of source. -/
def Kind.plain : List Kind :=
  [leftParen, rightParen, leftBrace, rightBrace, comma, dot, minus, plus, semicolon, slash, star,
    bang, bangEqual, equal, equalEqual, greater, greaterEqual, less, lessEqual, identifier, and,
    .class, .else, .false, .fun, .for, .if, nil, or, print, .return, super, this, .true, var,
    .while]

theorem Kind.eq_of_name : ∀ a ∈ plain, ∀ b ∈ plain, a.name = b.name → a = b := by decide +kernel

theorem Kind.name_of_plain :
    ∀ a ∈ plain, a.name ≠ "STRING" ∧ a.name ≠ "NUMBER" ∧ a.name ≠ "EOF" := by
  decide +kernel

theorem Kind.sameForm_iff {a kind : Kind} (plain : kind ∈ plain) :
    a.sameForm kind ↔ a = kind := by
  obtain ⟨string, number, eof⟩ := name_of_plain kind plain
  rw [sameForm, beq_iff_eq]
  constructor
  · intro same
    cases a
    case string => exact absurd same.symm string
    case number => exact absurd same.symm number
    case eof => exact absurd same.symm eof
    all_goals exact eq_of_name _ (by decide) kind plain same
  · rintro rfl
    rfl

theorem Kind.ne_eof_of_plain {kind : Kind} (h : kind ∈ plain) : kind ≠ .eof := by
  rintro rfl
  exact absurd h (by decide)

namespace Parse

/-! ## The parser of a state -/

/-- What a state has left are the tokens up to their first end of source. -/
structure Fits (tokens : List Token) (s : State) : Prop where
  split : ∃ front behind, tokens = front ++ (s.rest ++ s.eof :: behind) ∧
    ∀ t ∈ front, t.kind ≠ .eof
  kinds : ∀ t ∈ s.rest, t.kind ≠ .eof
  eof : s.eof.kind = .eof

/-- The index of the first end of source. -/
def firstEof (tokens : List Token) : Nat := tokens.findIdx (·.kind == .eof)

/-- The state as a parser of all the tokens. -/
def State.indexed (tokens : List Token) (s : State) : Parser :=
  ⟨s.task, tokens, firstEof tokens - s.rest.length, s.nextId, s.errors⟩

section

variable {tokens : List Token} {s : State}

theorem Fits.of_suffix {t : State} (fits : Fits tokens s) (suffix : t.rest <:+ s.rest)
    (eof : t.eof = s.eof) : Fits tokens t := by
  obtain ⟨front, behind, split, none⟩ := fits.split
  obtain ⟨passed, whole⟩ := suffix
  refine ⟨⟨front ++ passed, behind, ?_, fun u mem => ?_⟩, fun u mem => ?_, eof ▸ fits.eof⟩
  · rw [split, ← whole, eof, List.append_assoc, List.append_assoc]
  · rcases List.mem_append.1 mem with mem | mem
    · exact none u mem
    · exact fits.kinds u (whole ▸ List.mem_append_left _ mem)
  · exact fits.kinds u (whole ▸ List.mem_append_right _ mem)

/-- The parser of a state is behind the tokens that have been taken. -/
theorem Fits.exists_front (fits : Fits tokens s) : ∃ front behind,
    tokens = front ++ (s.rest ++ s.eof :: behind) ∧ (s.indexed tokens).current = front.length ∧
      firstEof tokens = front.length + s.rest.length := by
  obtain ⟨front, behind, split, none⟩ := fits.split
  have before : (front ++ s.rest).findIdx (·.kind == .eof) = (front ++ s.rest).length := by
    rw [List.findIdx_eq_length]
    intro t mem
    rcases List.mem_append.1 mem with mem | mem
    · simpa using none t mem
    · simpa using fits.kinds t mem
  have first : firstEof tokens = front.length + s.rest.length := by
    rw [firstEof, split, ← List.append_assoc, List.findIdx_append, before, if_neg (Nat.lt_irrefl _)]
    simp [List.findIdx_cons, fits.eof]
  refine ⟨front, behind, split, ?_, first⟩
  show firstEof tokens - s.rest.length = front.length
  omega

theorem peek?_indexed (fits : Fits tokens s) : (s.indexed tokens).peek? = some s.next := by
  obtain ⟨front, behind, split, place, -⟩ := fits.exists_front
  show tokens[(s.indexed tokens).current]? = _
  rw [place, split, List.getElem?_append_right (Nat.le_refl _), Nat.sub_self, State.next]
  cases s.rest <;> rfl

theorem isAtEnd?_indexed (fits : Fits tokens s) :
    (s.indexed tokens).isAtEnd? = some s.rest.isEmpty := by
  rw [Parser.isAtEnd?, peek?_indexed fits, Option.map_some, State.next]
  congr 1
  cases left : s.rest with
  | nil => exact beq_iff_eq.2 fits.eof
  | cons t ts => exact beq_eq_false_iff_ne.2 (fits.kinds t (left ▸ List.mem_cons_self))

theorem next_kind (fits : Fits tokens s) : s.next.kind = s.look := by
  rw [State.next, State.look]
  cases s.rest with
  | nil => exact fits.eof
  | cons t ts => rfl

theorem check?_indexed (fits : Fits tokens s) {kind : Kind} (plain : kind ∈ Kind.plain) :
    (s.indexed tokens).check? kind = some (decide (s.look = kind)) := by
  rw [Parser.check?, isAtEnd?_indexed fits, peek?_indexed fits, Option.bind_some, State.next,
    State.look]
  cases left : s.rest with
  | nil =>
    rw [decide_eq_false (Kind.ne_eof_of_plain plain).symm]
    rfl
  | cons t ts =>
    have same := Kind.sameForm_iff (a := t.kind) plain
    show some (t.kind.sameForm kind) = _
    rw [Bool.eq_iff_iff.2 (same.trans decide_eq_true_iff.symm)]

theorem previous?_indexed_take (fits : Fits tokens s) (more : s.rest ≠ []) (task : Task) :
    ((s.take task).indexed tokens).previous? = some s.next := by
  obtain ⟨front, behind, split, place, first⟩ := fits.exists_front
  obtain ⟨t, ts, left⟩ := List.exists_cons_of_ne_nil more
  have moved : firstEof tokens - s.rest.tail.length - 1 = front.length := by
    rw [first, left, List.tail_cons, List.length_cons]
    omega
  show tokens[firstEof tokens - s.rest.tail.length - 1]? = _
  rw [moved, split, List.getElem?_append_right (Nat.le_refl _), Nat.sub_self, State.next, left]
  rfl

theorem exists_previous? (fits : Fits tokens s) :
    ∃ previous, (s.indexed tokens).previous? = some previous := by
  obtain ⟨front, behind, split, place, -⟩ := fits.exists_front
  have inside : (s.indexed tokens).current - 1 < tokens.length := by
    rw [place, split]
    simp
    omega
  exact ⟨_, List.getElem?_eq_getElem inside⟩

theorem advance?_indexed (fits : Fits tokens s) (more : s.rest ≠ []) :
    (s.indexed tokens).advance? = some (s.next, (s.take s.task).indexed tokens) := by
  obtain ⟨front, behind, split, place, first⟩ := fits.exists_front
  have inside : s.rest.isEmpty = false := by simpa using more
  have moved : { s.indexed tokens with current := (s.indexed tokens).current + 1 } =
      (s.take s.task).indexed tokens := by
    have next : (s.indexed tokens).current + 1 = firstEof tokens - s.rest.tail.length := by
      obtain ⟨t, ts, left⟩ := List.exists_cons_of_ne_nil more
      rw [place, first, left, List.tail_cons, List.length_cons]
      omega
    rw [next]
    rfl
  rw [Parser.advance?, isAtEnd?_indexed fits, inside, Option.bind_some]
  simp only [Bool.false_eq_true, if_false]
  rw [moved, previous?_indexed_take fits more, Option.map_some]

theorem onKind_indexed (fits : Fits tokens s) {kind : Kind} (plain : kind ∈ Kind.plain)
    (taken : Parser → Option Parser) (left : Option Parser) :
    (s.indexed tokens).onKind kind taken left =
      if s.look = kind then taken ((s.take s.task).indexed tokens) else left := by
  rw [Parser.onKind, check?_indexed fits plain, Option.bind_some]
  by_cases look : s.look = kind
  · have more : s.rest ≠ [] := State.ne_nil_of_look look (Kind.ne_eof_of_plain plain)
    rw [decide_eq_true look, if_pos rfl, if_pos look, advance?_indexed fits more, Option.bind_some]
  · rw [decide_eq_false look, if_neg Bool.false_ne_true, if_neg look]

theorem accept_indexed (fits : Fits tokens s) {kind : Kind} (plain : kind ∈ Kind.plain)
    (task : Task) (left : Option Parser) :
    (s.indexed tokens).accept kind task left =
      if s.look = kind then some ((s.take task).indexed tokens) else left :=
  onKind_indexed fits plain ..

/-- What is done with a token that has just been taken. -/
theorem map_previous?_indexed (fits : Fits tokens s) {kind : Kind} (look : s.look = kind)
    (other : kind ≠ .eof) (f : Token → Parser) :
    ((s.take s.task).indexed tokens).previous?.map f = some (f s.next) := by
  rw [previous?_indexed_take fits (State.ne_nil_of_look look other), Option.map_some]

theorem onKind_previous_indexed (fits : Fits tokens s) {kind : Kind} (plain : kind ∈ Kind.plain)
    (f : Parser → Token → Parser) (left : Option Parser) :
    (s.indexed tokens).onKind kind (fun s => s.previous?.map (f s)) left =
      if s.look = kind then some (f ((s.take s.task).indexed tokens) s.next) else left := by
  rw [onKind_indexed fits plain]
  split
  · rename_i look
    exact map_previous?_indexed fits look (Kind.ne_eof_of_plain plain) _
  · rfl

theorem onKinds_previous_indexed (fits : Fits tokens s) {kinds : List Kind}
    (plain : ∀ kind ∈ kinds, kind ∈ Kind.plain) (f : Parser → Token → Parser)
    (left : Option Parser) :
    (s.indexed tokens).onKinds kinds (fun s => s.previous?.map (f s)) left =
      if s.look ∈ kinds then some (f ((s.take s.task).indexed tokens) s.next) else left := by
  induction kinds with
  | nil => rfl
  | cons kind kinds ih =>
    simp only [Parser.onKinds, List.foldr_cons] at ih ⊢
    rw [onKind_previous_indexed fits (plain kind List.mem_cons_self),
      ih fun other mem => plain other (List.mem_cons_of_mem _ mem)]
    by_cases look : s.look = kind
    · rw [if_pos look, if_pos (look ▸ List.mem_cons_self)]
    · rw [if_neg look]
      simp only [List.mem_cons, look, false_or]

theorem missing_indexed (fits : Fits tokens s) (what : Expected) {p : Part} (k : Pending p) :
    (s.indexed tokens).missing what k = some ((s.missing what k).indexed tokens) := by
  rw [Parser.missing, peek?_indexed fits]
  rfl

theorem note_indexed (fits : Fits tokens s) (fault : SyntaxFault) :
    (s.indexed tokens).note fault = some ((s.note fault).indexed tokens) := by
  rw [Parser.note, peek?_indexed fits]
  rfl

theorem require_eq {kind : Kind} (other : kind ≠ .eof) (what : Expected) {p : Part} (k : Pending p)
    (task : Token → Task) : s.require kind what k task =
      if s.look = kind then s.take (task s.next) else s.missing what k := by
  unfold State.require State.look State.next
  cases s.rest with
  | nil => exact (if_neg other.symm).symm
  | cons t ts => rfl

theorem branch_eq {kind : Kind} (other : kind ≠ .eof) (taken : Token → Task) (left : Task) :
    s.branch kind taken left = if s.look = kind then s.take (taken s.next) else s.goTo left := by
  unfold State.branch State.look State.next
  cases s.rest with
  | nil => exact (if_neg other.symm).symm
  | cons t ts => rfl

theorem consume_indexed (fits : Fits tokens s) {kind : Kind} (plain : kind ∈ Kind.plain)
    (what : Expected) {p : Part} (k : Pending p) (task : Token → Task) :
    (s.indexed tokens).consume kind what k task =
      some ((s.require kind what k task).indexed tokens) := by
  have other := Kind.ne_eof_of_plain plain
  rw [Parser.consume, check?_indexed fits plain, Option.bind_some, require_eq other]
  by_cases look : s.look = kind
  · have more : s.rest ≠ [] := State.ne_nil_of_look look other
    rw [decide_eq_true look, if_pos rfl, if_pos look, advance?_indexed fits more, Option.map_some]
    rfl
  · rw [decide_eq_false look, if_neg Bool.false_ne_true, if_neg look, missing_indexed fits]

theorem clause_indexed (fits : Fits tokens s) {kind : Kind} (plain : kind ∈ Kind.plain)
    (what : Expected) {p : Part} (k : Pending p) (without : Token → Task) (within : Task) :
    (s.indexed tokens).clause kind what k without within =
      some ((s.branch kind without within).indexed tokens) := by
  have other := Kind.ne_eof_of_plain plain
  rw [Parser.clause, check?_indexed fits plain, Option.bind_some, consume_indexed fits plain,
    require_eq other, branch_eq other]
  by_cases look : s.look = kind
  · rw [decide_eq_true look, if_pos rfl, if_pos look, if_pos look]
  · rw [decide_eq_false look, if_neg Bool.false_ne_true, if_neg look]
    rfl

theorem items_indexed (fits : Fits tokens s) (what : Expected) {p : Part} (k : Pending p)
    (closing item : Task) :
    (s.indexed tokens).items what k (fun _ => closing) item =
      some (State.indexed tokens (match s.rest with
        | [] => s.missing what k
        | t :: _ => if t.kind = .rightBrace then s.take closing else s.goTo item)) := by
  rw [Parser.items, check?_indexed fits (by decide), Option.bind_some, isAtEnd?_indexed fits,
    Option.bind_some, consume_indexed fits (by decide), State.require, State.look]
  cases s.rest with
  | nil => rfl
  | cons t ts =>
    by_cases brace : t.kind = .rightBrace
    · simp [brace]
    · simp [brace]
      rfl

/-- A parser that is behind a token skips as that token asks for. -/
theorem skip?_indexed (fits : Fits tokens s) {previous : Token}
    (behind : (s.indexed tokens).previous? = some previous) :
    (s.indexed tokens).skip? =
      some (State.indexed tokens { s with rest := skipAfter previous s.rest }) := by
  induction left : s.rest generalizing s previous with
  | nil =>
    have ended : (s.indexed tokens).isAtEnd? = some true := by
      rw [isAtEnd?_indexed fits, left]
      rfl
    rw [Parser.skip?]
    split
    · simp_all
    · rw [skipAfter, ← left]
    · simp_all
  | cons t ts ih =>
    have more : s.rest ≠ [] := by simp [left]
    have inside : (s.indexed tokens).isAtEnd? = some false := by
      rw [isAtEnd?_indexed fits, left]
      rfl
    have next : (s.indexed tokens).peek? = some t := by
      rw [peek?_indexed fits, State.next, left]
      rfl
    have passed : Fits tokens (s.take s.task) := fits.of_suffix (List.tail_suffix _) rfl
    have moved := advance?_indexed fits more
    have there := ih passed (previous?_indexed_take fits more s.task) (by simp [State.take, left])
    rw [Parser.skip?]
    split
    · simp_all
    · simp_all
    · rw [behind, next]
      simp only [skipAfter]
      split
      · rw [← left]
      · split
        · simp_all
        · rename_i token s' moved'
          rw [moved] at moved'
          cases moved'
          have first : s.next = t := by rw [State.next, left, List.headD_cons]
          rw [← first]
          exact there

theorem synchronize?_indexed (fits : Fits tokens s) :
    (s.indexed tokens).synchronize? =
      some (State.indexed tokens { s with rest := synchronize s.rest }) := by
  rw [Parser.synchronize?]
  cases left : s.rest with
  | nil =>
    have ended : (s.indexed tokens).isAtEnd? = some true := by
      rw [isAtEnd?_indexed fits, left]
      rfl
    obtain ⟨previous, found⟩ := exists_previous? fits
    rw [Parser.advance?, ended, Option.bind_some]
    simp only [if_true, found, Option.map_some, Option.bind_some]
    rw [skip?_indexed fits found, left]
    rfl
  | cons t ts =>
    have more : s.rest ≠ [] := by simp [left]
    have passed : Fits tokens (s.take s.task) := fits.of_suffix (List.tail_suffix _) rfl
    have behind := previous?_indexed_take fits more s.task
    rw [advance?_indexed fits more, Option.bind_some, skip?_indexed passed behind]
    have same : s.next = t ∧ (s.take s.task).rest = ts := by simp [State.next, State.take, left]
    rw [same.1, same.2]
    rfl

theorem giveUp_indexed (fits : Fits tokens s) (e : StaticError) (list : Task) :
    (s.indexed tokens).giveUp e list =
      some (State.indexed tokens
        { s with task := list, rest := synchronize s.rest, errors := e :: s.errors }) := by
  let noted : State := { s with task := list, errors := e :: s.errors }
  have fits : Fits tokens noted := fits.of_suffix List.suffix_rfl rfl
  exact synchronize?_indexed fits

theorem declaration_indexed (fits : Fits tokens s) (k : Pending .statement) :
    (s.indexed tokens).declaration k = some ((s.declaration k).indexed tokens) := by
  rw [Parser.declaration, accept_indexed fits (by decide), accept_indexed fits (by decide),
    accept_indexed fits (by decide), State.declaration]
  generalize s.look = look
  cases look <;> rfl

theorem statement_indexed (fits : Fits tokens s) (k : Pending .statement) :
    (s.indexed tokens).statement k = some ((s.statement k).indexed tokens) := by
  rw [Parser.statement, accept_indexed fits (by decide), accept_indexed fits (by decide),
    accept_indexed fits (by decide), onKind_previous_indexed fits (by decide),
    accept_indexed fits (by decide), accept_indexed fits (by decide), State.statement]
  generalize s.look = look
  cases look <;> rfl

theorem forInitializer_indexed (fits : Fits tokens s) (k : Pending .statement) :
    (s.indexed tokens).forInitializer k = some ((s.forInitializer k).indexed tokens) := by
  rw [Parser.forInitializer, accept_indexed fits (by decide), accept_indexed fits (by decide),
    State.forInitializer]
  generalize s.look = look
  cases look <;> rfl

theorem unary_indexed (fits : Fits tokens s) (k : Pending .expression) :
    (s.indexed tokens).unary k = some ((s.unary k).indexed tokens) := by
  rw [Parser.unary, onKinds_previous_indexed fits (by decide), State.unary]
  generalize s.look = look
  cases look <;> rfl

theorem primary_indexed (fits : Fits tokens s) (k : Pending .expression) :
    (s.indexed tokens).primary k = some ((s.primary k).indexed tokens) := by
  rw [Parser.primary, accept_indexed fits (by decide), accept_indexed fits (by decide),
    accept_indexed fits (by decide), peek?_indexed fits, Option.bind_some, next_kind fits,
    onKind_previous_indexed fits (by decide), accept_indexed fits (by decide), missing_indexed fits,
    State.primary]
  cases look : s.look with
  | number x | string text =>
    rw [advance?_indexed fits (State.ne_nil_of_look look (by simp))]
    rfl
  | _ => rfl

theorem operators_plain (l : Level) : ∀ kind ∈ l.operators, kind ∈ Kind.plain := by
  cases l <;> decide

theorem mem_operators (l : Level) (kind : Kind) : kind ∈ l.operators ↔ l.admits kind = true := by
  cases l <;> cases kind <;> simp [Level.operators, Level.admits]

theorem giveExpression_indexed (fits : Fits tokens s) (e : Expr) (k : Pending .expression) :
    (s.indexed tokens).giveExpression e k = some ((s.giveExpression e k).indexed tokens) := by
  cases k with
  | assignment k =>
    rw [Parser.giveExpression, onKind_previous_indexed fits (by decide), State.giveExpression,
      branch_eq (by decide)]
    split <;> rfl
  | assigned target equals k => cases target <;> rfl
  | operators l k =>
    rw [Parser.giveExpression, onKinds_previous_indexed fits (operators_plain l),
      State.giveExpression]
    simp only [mem_operators]
    split <;> rfl
  | rightOperand l left op k | operand op k => rfl
  | trailers k =>
    rw [Parser.giveExpression, accept_indexed fits (by decide), accept_indexed fits (by decide),
      State.giveExpression, State.trailers]
    generalize s.look = look
    cases look <;> rfl
  | argument callee done k =>
    rw [Parser.giveExpression, accept_indexed fits (by decide), consume_indexed fits (by decide),
      State.giveExpression]
    generalize s.look = look
    cases look <;> rfl
  | group k | initializer name k | ifTest k | whileTest k | printed k | returned keyword k
  | expressionStatement k | forTest initializer k | forStep initializer test k =>
    rw [Parser.giveExpression, State.giveExpression]
    exact consume_indexed fits (by decide) ..

theorem giveStatement_indexed (fits : Fits tokens s) (stmt : Stmt) (k : Pending .statement) :
    (s.indexed tokens).giveStatement stmt k = some ((s.giveStatement stmt k).indexed tokens) := by
  cases k with
  | thenBranch condition k =>
    rw [Parser.giveStatement, accept_indexed fits (by decide), State.giveStatement,
      branch_eq (by decide)]
    split <;> rfl
  | _ => rfl

theorem fail_indexed (fits : Fits tokens s) (e : StaticError) {p : Part} (k : Pending p) :
    (s.indexed tokens).fail e k = some ((s.fail e k).indexed tokens) := by
  cases k with
  | program done | declarations done k => exact giveUp_indexed fits ..
  | _ => rfl

theorem step?_indexed (fits : Fits tokens s) :
    (s.indexed tokens).step? = some (s.step.indexed tokens) := by
  have same : (s.indexed tokens).task = s.task := rfl
  rw [Parser.step?, same, State.step]
  cases task : s.task with
  | className k | classOpen name k | callableName c k | callableOpen c name k
  | callableBody c name params k | variableName k | forOpen k | ifOpen k | whileOpen k
  | property object k => exact consume_indexed fits (by decide) ..
  | parameters c name k | arguments callee k | forTest initializer k | forStep initializer test k
  | returnValue keyword k => exact clause_indexed fits (by decide) ..
  | program done =>
    simp only [isAtEnd?_indexed fits]
    cases s.rest <;> rfl
  | declarations done k | methods name done k => exact items_indexed fits ..
  | declaration k => exact declaration_indexed fits k
  | statement k => exact statement_indexed fits k
  | forInitializer k => exact forInitializer_indexed fits k
  | unary k => exact unary_indexed fits k
  | primary k => exact primary_indexed fits k
  | giveExpression e k => exact giveExpression_indexed fits e k
  | giveStatement stmt k => exact giveStatement_indexed fits stmt k
  | giveFunction f k => cases k <;> rfl
  | giveBody body k => cases k <;> rfl
  | fail e k => exact fail_indexed fits e k
  | parameter c name done k =>
    simp only []
    split
    · have noted : Fits tokens (s.note .tooManyParameters) := fits.of_suffix List.suffix_rfl rfl
      rw [note_indexed fits, Option.bind_some, consume_indexed noted (by decide)]
    · rw [Option.bind_some, consume_indexed fits (by decide)]
  | argument callee done k =>
    simp only []
    split
    · rw [note_indexed fits]
      rfl
    · rfl
  | parameterEnd c name done k | variableValue name k =>
    have comma : Kind.comma ∈ Kind.plain := by decide
    have equal : Kind.equal ∈ Kind.plain := by decide
    simp only [accept_indexed fits comma, accept_indexed fits equal]
    rw [consume_indexed fits (by decide)]
    generalize s.look = look
    cases look <;> rfl
  | expression k | level l k | finished program => rfl

theorem after_indexed (fits : Fits tokens s) (m : Nat) :
    (s.indexed tokens).after m = some (State.indexed tokens (State.step^[m] s)) ∧
      Fits tokens (State.step^[m] s) := by
  induction m generalizing s with
  | zero => exact ⟨rfl, fits⟩
  | succ m ih =>
    have stride := State.stride_step s
    obtain ⟨after, fits'⟩ := ih (fits.of_suffix stride.suffix stride.eof)
    rw [Function.iterate_succ_apply]
    refine ⟨?_, fits'⟩
    rw [Parser.after, step?_indexed fits, Option.bind_some, after]

theorem leads_iterate (s : State) (m : Nat) : s.Leads (State.step^[m] s) := by
  induction m generalizing s with
  | zero => exact .refl s
  | succ m ih => exact .step (ih s.step)

theorem exists_iterate {t : State} (h : s.Leads t) : ∃ m, State.step^[m] s = t := by
  induction h with
  | refl => exact ⟨0, rfl⟩
  | step _ ih =>
    obtain ⟨m, same⟩ := ih
    exact ⟨m + 1, same⟩

end

/-! ## Whole parses -/

theorem fits_start (n : Nat) (tokens : List Token) :
    Fits (closed tokens) (State.start n tokens) := by
  obtain ⟨behind, split, kind⟩ := exists_closed n tokens
  refine ⟨⟨[], behind, split, fun t mem => nomatch mem⟩, fun t mem => ?_, kind⟩
  simpa using List.all_eq_true.1 List.all_takeWhile t mem

theorem firstEof_closed (n : Nat) (tokens : List Token) :
    firstEof (closed tokens) = (State.start n tokens).rest.length := by
  obtain ⟨behind, split, kind⟩ := exists_closed n tokens
  have before : ∀ t ∈ (State.start n tokens).rest, (t.kind == .eof) = false := fun t mem => by
    simpa using List.all_eq_true.1 List.all_takeWhile t mem
  rw [firstEof, split, List.findIdx_append, List.findIdx_eq_length.2 before,
    if_neg (Nat.lt_irrefl _)]
  simp [List.findIdx_cons, kind]

theorem new_eq (n : Nat) (tokens : List Token) :
    Parser.new n tokens = (State.start n tokens).indexed (closed tokens) := by
  rw [State.indexed, firstEof_closed n, Nat.sub_self]
  rfl

theorem result?_indexed (n : Nat) (tokens all : List Token)
    (ended : (State.start n tokens).run.ended = true) :
    ((State.start n tokens).run.indexed all).result? = some (program n tokens) := by
  obtain ⟨statements, finished⟩ := State.exists_finished_of_ended ended
  rw [program, State.statements, finished]
  show Parser.result? ⟨(State.start n tokens).run.task, _, _, _, _⟩ = _
  rw [finished]
  rfl

/-- A declaration that is looked for in front of the end of source takes a token at least, and the
list that it is looked for goes on. -/
theorem resumes_of_declaration {tokens : List Token} {s : State} (fits : Fits tokens s)
    {k : Pending .statement} (list : k.IsList) (task : s.task = .declaration k)
    (before : (s.indexed tokens).current < firstEof tokens) :
    (∃ j t, (s.indexed tokens).after j = some t ∧ k.Resumes t.task) ∧
      ∀ j t, (s.indexed tokens).after j = some t → k.Resumes t.task →
        (s.indexed tokens).current < t.current := by
  constructor
  · obtain ⟨t, behind, resumes⟩ := State.exists_leads_resumes list task
    obtain ⟨j, rfl⟩ := exists_iterate behind
    exact ⟨j, _, (after_indexed fits j).1, resumes⟩
  · intro j t further resumes
    obtain ⟨after, -⟩ := after_indexed fits j
    rw [further, Option.some.injEq] at after
    subst after
    obtain ⟨front, -, -, here, place⟩ := fits.exists_front
    have more : s.rest ≠ [] := by
      intro none
      rw [here, place, none] at before
      exact Nat.lt_irrefl _ before
    have fresh : s.task.Fresh := by
      rw [task]
      trivial
    have shorter := (leads_iterate s j).shorter fresh more (State.not_fresh_of_resumes resumes)
    show firstEof tokens - s.rest.length < firstEof tokens - _
    omega

/-- Every parse at an index ends, in a number of steps that the number of tokens bounds, with the
program or the errors of `program`. Until then none of its steps fails, and it is at the first end of
source at the latest. Every declaration that is looked for in front of that has taken a token at least
when its list goes on; and its list does go on. What stands behind the first end of source plays no
part. -/
theorem Parser.in_bounds (n : Nat) (tokens : List Token) :
    firstEof (closed tokens) < (closed tokens).length ∧
    (∀ m, ∃ s, (new n tokens).after m = some s ∧ s.tokens = closed tokens ∧
      s.current ≤ firstEof (closed tokens)) ∧
    (∃ m ≤ 40 * tokens.length + 24, ∃ s, (new n tokens).after m = some s ∧
      s.result? = some (program n tokens)) ∧
    (∀ m s k, (new n tokens).after m = some s → s.task = .declaration k →
      s.current < firstEof (closed tokens) →
      (∃ j t, s.after j = some t ∧ k.Resumes t.task) ∧
        ∀ j t, s.after j = some t → k.Resumes t.task → s.current < t.current) ∧
    ∀ eof behind, eof.kind = .eof → ∀ m, ∃ s t,
      (new n (tokens ++ eof :: behind)).after m = some s ∧
      (new n (tokens ++ [eof])).after m = some t ∧
      { s with tokens := t.tokens } = t ∧ s.result? = t.result? := by
  have fits := fits_start n tokens
  rw [new_eq]
  refine ⟨?_, fun m => ?_, ?_, fun m s k reached task before => ?_, fun eof behind kind m => ?_⟩
  · obtain ⟨behind, split, -⟩ := exists_closed n tokens
    rw [firstEof_closed n, split]
    simp
  · exact ⟨_, (after_indexed fits m).1, rfl, Nat.sub_le _ _⟩
  · obtain ⟨m, few, steps, ended⟩ := State.exists_steps (.start n tokens)
    refine ⟨m, few.trans (State.measure_start_le n tokens), _, (after_indexed fits m).1, ?_⟩
    rw [steps, result?_indexed n tokens _ ended]
  · obtain ⟨after, fits⟩ := after_indexed fits m
    rw [reached, Option.some.injEq] at after
    subst after
    refine resumes_of_declaration fits ?_ task before
    exact (leads_iterate _ m).isList task fun k' task' => by cases task'
  · have same := start_behind_eof n tokens kind behind
    have one := (after_indexed (fits_start n (tokens ++ eof :: behind)) m).1
    have other := (after_indexed (fits_start n (tokens ++ [eof])) m).1
    have place : firstEof (closed (tokens ++ eof :: behind)) =
        firstEof (closed (tokens ++ [eof])) := by
      rw [firstEof_closed n, firstEof_closed n, same]
    rw [← new_eq] at one other
    rw [same] at one
    refine ⟨_, _, one, other, ?_, rfl⟩
    rw [State.indexed, State.indexed, place]

/-- A bracket that nothing was opened by is given up, and the program goes on behind it; and a second
one, behind the end of source, is not read. -/
theorem Parser.in_bounds_bracket :
    let bracket : Token := ⟨.rightParen, ")", 1⟩
    let first : Parser := ⟨.declaration (.program []), [bracket, .endOn 1], 0, 0, []⟩
    (∃ j t, first.after j = some t ∧ (Pending.program []).Resumes t.task ∧ 0 < t.current) ∧
      ∀ m, ∃ s t, (new 0 [bracket, .endOn 1, bracket]).after m = some s ∧
        (new 0 [bracket, .endOn 1]).after m = some t ∧ s.result? = t.result? := by
  intro bracket first
  obtain ⟨-, -, -, declarations, behind⟩ := in_bounds 0 [bracket]
  have reached : (new 0 [bracket]).after 1 = some first := rfl
  obtain ⟨⟨j, t, further, resumes⟩, moved⟩ :=
    declarations 1 first (.program []) reached rfl Nat.zero_lt_one
  refine ⟨⟨j, t, further, resumes, moved j t further resumes⟩, fun m => ?_⟩
  obtain ⟨s, t, one, other, -, same⟩ := behind (.endOn 1) [bracket] rfl m
  exact ⟨s, t, one, other, same⟩

end Parse

end Lox
