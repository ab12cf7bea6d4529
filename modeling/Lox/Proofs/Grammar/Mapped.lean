/-
Derivations with other tokens of the same kinds. They derive the same tree with the tokens replaced,
whatever the id that the parser starts to count from (`tree_map`), and behind a list of declarations
another can follow (`extend`). No declaration starts with an `else`, so what stands behind a program
is parsed as if it stood alone (`program_append`).
-/
import Lox.Proofs.Grammar.Sound
import Lox.Proofs.Grammar.Trees
import Lox.Proofs.Syntax.Recode

namespace Lox.Grammar

open Parse

/-! ## Trees with other ids and tokens -/

/-- What a phrase derives, with each id and each token replaced. -/
@[simp] def Phrase.map (ids : Nat → Nat) (token : Token → Token) : (p : Phrase) → p.Tree → p.Tree
  | expression _, e => Expr.map ids token e
  | arguments, es => Expr.mapAll ids token es
  | optional, e => e.map (Expr.map ids token)
  | initializer, s => s.map (Stmt.map ids token)
  | varDeclaration, s => Stmt.map ids token s
  | expressionStatement, s => Stmt.map ids token s
  | statement, s => Stmt.map ids token s
  | declaration, s => Stmt.map ids token s
  | declarations, ss => Stmt.mapAll ids token ss
  | block, ss => Stmt.mapAll ids token ss
  | function, f => f.mapTokens ids token
  | functions, fs => Stmt.mapMethods ids token fs

theorem Phrase.map_map {ids ids' : Nat → Nat} : ∀ (p : Phrase) (t : p.Tree),
    p.map ids' id (p.map ids id t) = p.map (fun i => ids' (ids i)) id t
  | expression _, e => e.map_map (fun _ => rfl) fun _ => rfl
  | arguments, es => Expr.mapAll_mapAll (fun _ => rfl) (fun _ => rfl) es
  | optional, none => rfl
  | optional, some e => congrArg some (e.map_map (fun _ => rfl) fun _ => rfl)
  | initializer, none => rfl
  | initializer, some s => congrArg some (s.map_map (fun _ => rfl) fun _ => rfl)
  | varDeclaration, s | expressionStatement, s | statement, s | declaration, s =>
    Stmt.map_map (fun _ => rfl) (fun _ => rfl) s
  | declarations, ss | block, ss => Stmt.mapAll_mapAll (fun _ => rfl) (fun _ => rfl) ss
  | function, f => by
    have body := @Stmt.mapAll_mapAll ids ids' (fun i => ids' (ids i)) id id id (fun _ => rfl)
      (fun _ => rfl) f.body
    simp [FunctionOf.mapTokens, body]
  | functions, fs => Stmt.mapMethods_mapMethods (fun _ => rfl) (fun _ => rfl) fs

/-- Only the ids in what a phrase derives matter. -/
theorem Phrase.map_congr {ids ids' : Nat → Nat} : ∀ (p : Phrase) {t : p.Tree},
    (∀ i ∈ p.everyId t, ids i = ids' i) → p.map ids id t = p.map ids' id t
  | expression _, e, h => e.map_congr h
  | arguments, es, h => Expr.mapAll_congr es h
  | optional, none, _ => rfl
  | optional, some e, h => congrArg some (e.map_congr h)
  | initializer, none, _ => rfl
  | initializer, some s, h => congrArg some (s.map_congr h)
  | varDeclaration, s, h | expressionStatement, s, h | statement, s, h | declaration, s, h =>
    Stmt.map_congr s h
  | declarations, ss, h | block, ss, h => Stmt.mapAll_congr ss h
  | function, f, h => by simp [FunctionOf.mapTokens, Stmt.mapAll_congr f.body h]
  | functions, fs, h => Stmt.mapMethods_congr fs h

theorem map_join (ids : Nat → Nat) (token : Token → Token) (l : Level) (left : Expr) (op : Token)
    (right : Expr) : (l.join left op right).map ids token =
      l.join (left.map ids token) (token op) (right.map ids token) := by
  cases l <;> simp [Level.join]

theorem map_forLoop (ids : Nat → Nat) (token : Token → Token) (initializer : Option Stmt)
    (test step : Option Expr) (body : Stmt) :
    (Parse.forLoop initializer test step body).map ids token =
      Parse.forLoop (initializer.map (Stmt.map ids token)) (test.map (Expr.map ids token))
        (step.map (Expr.map ids token)) (body.map ids token) := by
  cases initializer <;> cases test <;> cases step <;> simp [Parse.forLoop]

/-! ## Derivations with other tokens -/

section

variable (r : Recoding)

/-- The terminal with its token replaced. -/
def Terminal.map {kind : Kind} (t : Terminal kind) : Terminal kind :=
  ⟨r.token t.1, (r.kind_token t.1).trans t.2⟩

def Operator.map {l : Level} (op : Operator l) : Operator l :=
  ⟨r.token op.1, by rw [r.kind_token, op.2]⟩

def PrefixOperator.map (op : PrefixOperator) : PrefixOperator :=
  ⟨r.token op.1, by rw [r.kind_token]; exact op.2⟩

def Parameters.map : Parameters → Parameters
  | none => none
  | some first others =>
    some (Terminal.map r first)
      (others.map fun (comma, name) => (Terminal.map r comma, Terminal.map r name))

namespace Derivation

/-- The derivation with each token replaced. -/
@[simp] def map : {p : Phrase} → Derivation p → Derivation p
  | _, literal t l h => literal (r.token t) l (by rw [r.kind_token, h])
  | _, identifier name => identifier (Terminal.map r name)
  | _, group opening inner closing =>
    group (Terminal.map r opening) inner.map (Terminal.map r closing)
  | _, callOfPrimary e => callOfPrimary e.map
  | _, callNone callee opening closing =>
    callNone callee.map (Terminal.map r opening) (Terminal.map r closing)
  | _, callSome callee opening args closing =>
    callSome callee.map (Terminal.map r opening) args.map (Terminal.map r closing)
  | _, get object dot name => get object.map (Terminal.map r dot) (Terminal.map r name)
  | _, unaryOfCall e => unaryOfCall e.map
  | _, prefixed op right => prefixed (PrefixOperator.map r op) right.map
  | _, binaryOfOperand l e => binaryOfOperand l e.map
  | _, binary l left op right => binary l left.map (Operator.map r op) right.map
  | _, assignmentOfOr e => assignmentOfOr e.map
  | _, assign name equals value => assign (Terminal.map r name) (Terminal.map r equals) value.map
  | _, set object dot name equals value =>
    set object.map (Terminal.map r dot) (Terminal.map r name) (Terminal.map r equals) value.map
  | _, lastArgument e => lastArgument e.map
  | _, argument e comma others => argument e.map (Terminal.map r comma) others.map
  | _, absent => absent
  | _, present e => present e.map
  | _, uninitialized keyword name semicolon =>
    uninitialized (Terminal.map r keyword) (Terminal.map r name) (Terminal.map r semicolon)
  | _, initialized keyword name equals value semicolon =>
    initialized (Terminal.map r keyword) (Terminal.map r name) (Terminal.map r equals) value.map
      (Terminal.map r semicolon)
  | _, expressionStatement e semicolon => expressionStatement e.map (Terminal.map r semicolon)
  | _, noInitializer semicolon => noInitializer (Terminal.map r semicolon)
  | _, variableInitializer v => variableInitializer v.map
  | _, expressionInitializer e => expressionInitializer e.map
  | _, statementOfExpression e => statementOfExpression e.map
  | _, forLoop keyword opening initializer test semicolon step closing body =>
    forLoop (Terminal.map r keyword) (Terminal.map r opening) initializer.map test.map
      (Terminal.map r semicolon) step.map (Terminal.map r closing) body.map
  | _, ifThen keyword opening test closing thenBranch =>
    ifThen (Terminal.map r keyword) (Terminal.map r opening) test.map (Terminal.map r closing)
      thenBranch.map
  | _, ifElse keyword opening test closing thenBranch otherwise elseBranch =>
    ifElse (Terminal.map r keyword) (Terminal.map r opening) test.map (Terminal.map r closing)
      thenBranch.map (Terminal.map r otherwise) elseBranch.map
  | _, print keyword e semicolon =>
    print (Terminal.map r keyword) e.map (Terminal.map r semicolon)
  | _, .return keyword value semicolon =>
    .return (Terminal.map r keyword) value.map (Terminal.map r semicolon)
  | _, .while keyword opening test closing body =>
    .while (Terminal.map r keyword) (Terminal.map r opening) test.map (Terminal.map r closing)
      body.map
  | _, statementOfBlock b => statementOfBlock b.map
  | _, block opening body closing =>
    block (Terminal.map r opening) body.map (Terminal.map r closing)
  | _, noDeclarations => noDeclarations
  | _, declarations first others => declarations first.map others.map
  | _, declarationOfStatement s => declarationOfStatement s.map
  | _, declarationOfVariable v => declarationOfVariable v.map
  | _, functionDeclaration keyword f => functionDeclaration (Terminal.map r keyword) f.map
  | _, classDeclaration keyword name opening methods closing =>
    classDeclaration (Terminal.map r keyword) (Terminal.map r name) (Terminal.map r opening)
      methods.map (Terminal.map r closing)
  | _, function name opening params closing body =>
    function (Terminal.map r name) (Terminal.map r opening) (params.map r)
      (Terminal.map r closing) body.map
  | _, noFunctions => noFunctions
  | _, functions first others => functions first.map others.map

end Derivation

end

theorem tokens_parameters (r : Recoding) (params : Parameters) :
    (params.map r).tokens = params.tokens.map r.token := by
  cases params with
  | none => rfl
  | some first others =>
    simp [Parameters.map, Parameters.tokens, Terminal.map, List.map_flatMap, List.flatMap_map]

theorem names_parameters (r : Recoding) (params : Parameters) :
    (params.map r).names = params.names.map r.token := by
  cases params with
  | none => rfl
  | some first others => simp [Parameters.map, Parameters.names, Terminal.map]

namespace Derivation

variable {r : Recoding}

theorem tokens_map {p : Phrase} (d : Derivation p) : (d.map r).tokens = d.tokens.map r.token := by
  induction d with
  | _ => simp_all [Terminal.map, Operator.map, PrefixOperator.map, tokens_parameters]

/-- Counting from elsewhere, the tree of other tokens has them in it, and the ids counted from
there. -/
theorem tree_map {p : Phrase} (d : Derivation p) {n k : Nat} (h : ∀ i, n ≤ i → r.ids i = i + k) :
    (d.map r).tree (n + k) = (p.map r.ids r.token (d.tree n).1, (d.tree n).2 + k) := by
  -- what is true of the ids from `n` on is true of those behind the first part of a phrase
  have later : ∀ {p' : Phrase} (d' : Derivation p') {m : Nat}, (∀ i, m ≤ i → r.ids i = i + k) →
      ∀ i, (d'.tree m).2 ≤ i → r.ids i = i + k :=
    fun d' m hm i hi => hm i (Nat.le_trans (fresh_tree d' m).le hi)
  induction d generalizing n with
  | literal t l hl | absent | noInitializer semicolon | noDeclarations | noFunctions
  | uninitialized keyword name semicolon => rfl
  | identifier name =>
    simp [Terminal.map, h n (Nat.le_refl n), Nat.add_right_comm]
  | group opening inner closing ih | callNone inner opening closing ih | get inner dot name ih
  | prefixed op inner ih | present inner ih | initialized keyword name equals inner semicolon ih
  | expressionStatement inner semicolon ih | variableInitializer inner ih
  | expressionInitializer inner ih | print keyword inner semicolon ih | statementOfBlock inner ih
  | classDeclaration keyword name opening inner closing ih
  | lastArgument inner ih | «return» keyword inner semicolon ih =>
    simp [ih h, Terminal.map, PrefixOperator.map]
  | callOfPrimary e ih | unaryOfCall e ih | binaryOfOperand l e ih | assignmentOfOr e ih
  | statementOfExpression e ih | block opening e closing ih | declarationOfStatement e ih
  | declarationOfVariable e ih => exact ih h
  | functionDeclaration keyword f ih => simp [ih h, FunctionOf.mapTokens]
  | function name opening params closing body ih =>
    simp [ih h, Terminal.map, FunctionOf.mapTokens, names_parameters]
  | callSome first opening second closing hf hs | argument first comma second hf hs
  | set first dot name equals second hf hs | ifThen keyword opening first closing second hf hs
  | «while» keyword opening first closing second hf hs | declarations first second hf hs =>
    simp [hf h, hs (later first h), Terminal.map]
  | functions first others hf ho => simp [hf h, ho (later first h), FunctionOf.mapTokens]
  | binary l left op right hl hr =>
    simp [hl h, hr (later left h), Operator.map, map_join]
  | assign name equals value ih =>
    have behind : ∀ i, n + 1 ≤ i → r.ids i = i + k := fun i hi => h i (Nat.le_of_succ_le hi)
    have counted : n + k + 1 = n + 1 + k := Nat.add_right_comm n k 1
    -- the id of the assignment is drawn behind those of the value
    have own : r.ids (value.tree (n + 1)).2 = (value.tree (n + 1)).2 + k :=
      later value behind _ (Nat.le_refl _)
    simp only [map, tree, counted, ih behind, Phrase.map, Expr.map, own, Terminal.map,
      Nat.add_right_comm _ k 1]
  | ifElse keyword opening test closing thenBranch otherwise elseBranch hc ht he =>
    simp [hc h, ht (later test h), he (later thenBranch (later test h)), Terminal.map]
  | forLoop keyword opening initializer test semicolon step closing body hi ht hs hb =>
    simp [hi h, ht (later initializer h), hs (later test (later initializer h)),
      hb (later step (later test (later initializer h))), map_forLoop]

theorem arity_map {p : Phrase} (d : Derivation p) : (d.map r).arity = d.arity := by
  induction d with
  | _ => simp_all

theorem bounded_map {p : Phrase} (d : Derivation p) (h : d.Bounded) : (d.map r).Bounded := by
  induction d with
  | _ => simp_all [arity_map, names_parameters]

/-- Only whether an `else` follows matters. -/
theorem nearest_map {p : Phrase} (d : Derivation p) {after after' : List Token}
    (h : d.Nearest after) (h' : firstKind after' = .else → firstKind after = .else) :
    (d.map r).Nearest after' := by
  -- what comes first is of the same kind as before, and so is what comes behind a phrase
  have first : ∀ {ts us vs : List Token}, (firstKind vs = .else → firstKind us = .else) →
      firstKind (ts.map r.token ++ vs) = .else → firstKind (ts ++ us) = .else := by
    intro ts us vs hvs he
    cases ts with
    | nil => exact hvs he
    | cons t ts => exact (r.kind_token t).symm.trans he
  induction d generalizing after after' with
  | ifThen keyword opening test closing thenBranch ht hb =>
    have last : firstKind after ≠ .else := (firstKind_ne_iff (by decide)).2 h.2
    exact ⟨hb h.1 h', (firstKind_ne_iff (by decide)).1 fun he => last (h' he)⟩
  | ifElse keyword opening test closing thenBranch otherwise elseBranch hc ht he =>
    exact ⟨ht h.1 fun _ => otherwise.2, he h.2 h'⟩
  | «while» keyword opening test closing body hc hb => exact hb h h'
  | forLoop keyword opening initializer test semicolon step closing body hi ht hs hb => exact hb h h'
  | block opening body closing ih | classDeclaration keyword name opening body closing ih =>
    refine ih h fun he => ?_
    have closed : closing.1.kind = .else := (r.kind_token closing.1).symm.trans he
    rw [closing.2] at closed
    cases closed
  | statementOfBlock d ih | declarationOfStatement d ih | functionDeclaration keyword d ih
  | function name opening params closing d ih => exact ih h h'
  | declarations one others hf ho | functions one others hf ho =>
    refine ⟨hf h.1 ?_, ho h.2 h'⟩
    rw [tokens_map]
    exact first h'
  | _ => trivial

/-- The ids play no part in a derivation. -/
theorem map_same (ids : Nat → Nat) {p : Phrase} (d : Derivation p) :
    d.map ⟨ids, id, Token.kind_id, Token.lexeme_id⟩ = d := by
  have params : ∀ ps : Parameters, ps.map ⟨ids, id, Token.kind_id, Token.lexeme_id⟩ = ps :=
    fun ps => by cases ps <;> simp [Parameters.map, Terminal.map]
  induction d with
  | _ => simp_all [Terminal.map, Operator.map, PrefixOperator.map]

theorem nearest_congr {p : Phrase} {d : Derivation p} {after after' : List Token}
    (h : d.Nearest after) (h' : firstKind after' = .else → firstKind after = .else) :
    d.Nearest after' := by
  rw [← map_same id d]
  exact nearest_map d h h'

/-! ## Trees counted from elsewhere -/

/-- A tree depends on where the parser starts to count by its ids only. -/
theorem tree_shift {p : Phrase} (d : Derivation p) (n k : Nat) :
    d.tree (n + k) = (p.map (· + k) id (d.tree n).1, (d.tree n).2 + k) := by
  have mapped := d.tree_map (r := ⟨(· + k), id, Token.kind_id, Token.lexeme_id⟩) (n := n) (k := k)
    fun _ _ => rfl
  rwa [map_same] at mapped

/-- The number of ids that the parser draws for a derivation, wherever it starts to count. -/
def drawn {p : Phrase} (d : Derivation p) : Nat := (d.tree 0).2

theorem tree_snd {p : Phrase} (d : Derivation p) (n : Nat) : (d.tree n).2 = n + d.drawn := by
  have shifted := congrArg Prod.snd (d.tree_shift 0 n)
  rw [Nat.zero_add] at shifted
  rw [shifted, drawn, Nat.add_comm]

/-- Ids that take the numbers drawn in one place to those drawn in another take the tree there. -/
theorem map_tree {p : Phrase} (d : Derivation p) (ids : Nat → Nat) {n m : Nat}
    (h : ∀ i < d.drawn, ids (i + n) = i + m) : p.map ids id (d.tree n).1 = (d.tree m).1 := by
  have one := congrArg Prod.fst (d.tree_shift 0 n)
  have other := congrArg Prod.fst (d.tree_shift 0 m)
  rw [Nat.zero_add] at one other
  rw [one, other, Phrase.map_map]
  exact p.map_congr fun i hi => h i ((fresh_everyId d 0).bounds i hi).2

/-! ## Declarations behind declarations -/

/-- The list of declarations with others behind it. -/
def extend : Derivation .declarations → Derivation .declarations → Derivation .declarations
  | noDeclarations, rest => rest
  | declarations first others, rest => declarations first (others.extend rest)

variable (rest : Derivation .declarations)

theorem tokens_extend (d : Derivation .declarations) :
    (d.extend rest).tokens = d.tokens ++ rest.tokens := by
  induction d, rest using extend.induct with
  | case1 rest => simp [extend]
  | case2 rest first others ih => simp [extend, ih]

theorem tree_extend (d : Derivation .declarations) (n : Nat) : (d.extend rest).tree n =
    ((d.tree n).1 ++ (rest.tree (d.tree n).2).1, (rest.tree (d.tree n).2).2) := by
  induction d, rest using extend.induct generalizing n with
  | case1 rest => simp [extend]
  | case2 rest first others ih => simp [extend, ih]

theorem bounded_extend {d : Derivation .declarations} (h : d.Bounded) (h' : rest.Bounded) :
    (d.extend rest).Bounded := by
  induction d, rest using extend.induct with
  | case1 rest => simpa [extend] using h'
  | case2 rest first others ih =>
    rw [extend]
    exact ⟨h.1, ih h.2 h'⟩

theorem nearest_extend {d : Derivation .declarations} {after : List Token}
    (h : d.Nearest (rest.tokens ++ after)) (h' : rest.Nearest after) :
    (d.extend rest).Nearest after := by
  induction d, rest using extend.induct with
  | case1 rest => simpa [extend] using h'
  | case2 rest first others ih =>
    rw [extend]
    refine ⟨?_, ih h.2 h'⟩
    rw [tokens_extend, List.append_assoc]
    exact h.1

end Derivation

/-! ## Programs behind programs -/

/-- What is derived from a list of declarations does not start with an `else`. -/
theorem firstKind_declarations_ne (d : Derivation .declarations) : firstKind d.tokens ≠ .else := by
  intro h
  cases d with
  | noDeclarations => cases h
  | declarations first others =>
    have starts := starts_tokens first others.tokens
    rw [Derivation.tokens] at h
    rw [h] at starts
    cases starts

theorem firstKind_map (r : Recoding) (ts : List Token) :
    firstKind (ts.map r.token) = firstKind ts := by
  cases ts with
  | nil => rfl
  | cons t ts => exact r.kind_token t

/-- Tokens behind those of a program are parsed as if they stood alone, with ids from where those of
the program end, wherever they stand. -/
theorem program_append {ts us : List Token} {eof eof' : Token} (ht : ∀ t ∈ ts, t.kind ≠ .eof)
    (hu : ∀ t ∈ us, t.kind ≠ .eof) (he : eof.kind = .eof) (he' : eof'.kind = .eof)
    (r : Recoding) (same : ∀ i, r.ids i = i) {n m k : Nat} {ss ss' : List Stmt}
    (first : program n (ts ++ [eof]) = ⟨.ok ss, m⟩)
    (second : program m (us ++ [eof']) = ⟨.ok ss', k⟩) :
    program n (ts ++ (us ++ [eof']).map r.token) =
      ⟨.ok (ss ++ Stmt.mapAll r.ids r.token ss'), k⟩ := by
  obtain ⟨d, hd, bounded, nearest, tree⟩ := exists_derivation (ts ++ [eof]) n (by rw [first])
  obtain ⟨d', hd', bounded', nearest', tree'⟩ :=
    exists_derivation (us ++ [eof']) m (by rw [second])
  rw [takeWhile_append_eof ht he] at hd
  rw [takeWhile_append_eof hu he'] at hd'
  subst hd hd'
  rw [first] at tree
  rw [second] at tree'
  have moved := d'.tree_map (r := r) (n := m) (k := 0) fun i _ => same i
  rw [Nat.add_zero, tree', Nat.add_zero] at moved
  -- the first tree is derived in front of the second too, where no `else` stands
  have behind : d.Nearest ((d'.map r).tokens ++ []) := by
    refine Derivation.nearest_congr nearest fun h => absurd h ?_
    rw [List.append_nil, Derivation.tokens_map, firstKind_map]
    exact firstKind_declarations_ne d'
  have joined := program_tokens (d.extend (d'.map r))
    (Derivation.bounded_extend _ bounded (d'.bounded_map bounded'))
    (Derivation.nearest_extend _ behind (Derivation.nearest_map d' nearest' id)) (r.token eof')
    ((r.kind_token eof').trans he') n
  rw [Derivation.tokens_extend, Derivation.tokens_map, Derivation.tree_extend, tree, moved,
    List.append_assoc] at joined
  rw [List.map_append]
  exact joined

end Lox.Grammar
