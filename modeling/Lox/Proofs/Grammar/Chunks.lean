/-
Independent syntax errors. A chunk is a clause that does not start with an `else`; segments are chunks
and blocks of segments. Wherever a chunk stands in a list of declarations, it is parsed to the
statements and the errors that it is parsed to alone (`Chunk.independent`), and so are segments, one
by one (`Segment.independent_all`). So all errors are found, and only they: those that each chunk has
alone (`program_segments`).
-/
import Lox.Proofs.Grammar.Complete
import Lox.Proofs.Grammar.Shift
import Lox.Proofs.Grammar.Within

namespace Lox.Parse

/-! ## Sources of chunks -/

/-- Tokens up to their only semicolon, with no brace, no `for` and no end of the source among them,
that are no `else` part of a statement before them. -/
structure Chunk where
  body : List Token
  semicolon : Token
  kind_semicolon : semicolon.kind = .semicolon
  plain : ∀ t ∈ body, Plain t
  starts : firstKind (body ++ [semicolon]) ≠ .else

/-- A chunk, or segments between braces. -/
inductive Segment
  | chunk (c : Chunk)
  | block (left : Token) (inside : List Segment) (right : Token) (opens : left.kind = .leftBrace)
    (closes : right.kind = .rightBrace)

namespace Chunk

variable (c : Chunk)

def tokens : List Token := c.body ++ [c.semicolon]

theorem clause : Clause c.tokens := .of_plain c.plain c.kind_semicolon

theorem kind_ne_eof : ∀ t ∈ c.tokens, t.kind ≠ .eof := by
  intro t ht
  rcases List.mem_append.1 ht with ht | ht
  · exact (c.plain t ht).eof
  · rw [List.mem_singleton.1 ht, c.kind_semicolon]
    nofun

theorem firstKind_ne (tail : List Token) : firstKind (c.tokens ++ tail) ≠ .else := by
  have starts := c.starts
  unfold tokens
  cases hb : c.body with
  | nil =>
    rw [hb] at starts
    exact starts
  | cons t ts =>
    rw [hb] at starts
    exact starts

/-- What a parse of the chunk alone comes to, when ids are counted from 0. -/
def final : State := State.run ⟨.program [], c.tokens, c.semicolon, 0, []⟩

/-- The statements of the chunk, whatever the ids in them. -/
def shapes : List Stmt := Stmt.mapAll (fun _ => 0) id c.final.statements

/-- The errors of the chunk, first to last. -/
def errors : List StaticError := c.final.errors.reverse

end Chunk

namespace Segment

mutual

def tokens : Segment → List Token
  | chunk c => c.tokens
  | block left inside right _ _ => left :: (tokensAll inside ++ [right])

def tokensAll : List Segment → List Token
  | [] => []
  | s :: ss => s.tokens ++ tokensAll ss

end

mutual

/-- The chunks in the order they stand in. -/
def chunks : Segment → List Chunk
  | chunk c => [c]
  | block _ inside _ _ _ => chunksAll inside

def chunksAll : List Segment → List Chunk
  | [] => []
  | s :: ss => s.chunks ++ chunksAll ss

end

mutual

/-- Statements for each chunk, in the blocks that the chunks stand in. -/
def statements (of : Chunk → List Stmt) : Segment → List Stmt
  | chunk c => of c
  | block _ inside _ _ _ => [.block (statementsAll of inside)]

def statementsAll (of : Chunk → List Stmt) : List Segment → List Stmt
  | [] => []
  | s :: ss => s.statements of ++ statementsAll of ss

end

mutual

theorem statements_congr {of of' : Chunk → List Stmt} :
    ∀ {s : Segment}, (∀ c ∈ s.chunks, of c = of' c) → s.statements of = s.statements of'
  | chunk c, h => h c (List.mem_singleton_self c)
  | block _ _ _ _ _, h => congrArg (fun body => [Stmt.block body]) (statementsAll_congr h)

theorem statementsAll_congr {of of' : Chunk → List Stmt} : ∀ {ss : List Segment},
    (∀ c ∈ chunksAll ss, of c = of' c) → statementsAll of ss = statementsAll of' ss
  | [], _ => rfl
  | s :: ss, h => by
    rw [chunksAll, List.forall_mem_append] at h
    rw [statementsAll, statementsAll, statements_congr h.1, statementsAll_congr h.2]

end

section

variable (tail : List Token)

/-- No segment starts with an `else`. -/
theorem firstKind_ne : ∀ s : Segment, firstKind (s.tokens ++ tail) ≠ .else
  | chunk c => c.firstKind_ne tail
  | block left inside right opens _ => by
    have first : firstKind ((block left inside right opens ‹_›).tokens ++ tail) = left.kind := rfl
    rw [first, opens]
    nofun

theorem firstKind_all_ne (next : firstKind tail ≠ .else) :
    ∀ ss : List Segment, firstKind (tokensAll ss ++ tail) ≠ .else
  | [] => next
  | s :: ss => by
    rw [tokensAll, List.append_assoc]
    exact s.firstKind_ne _

end

mutual

theorem kind_ne_eof : ∀ s : Segment, ∀ t ∈ s.tokens, t.kind ≠ .eof
  | chunk c => c.kind_ne_eof
  | block left inside right opens closes => by
    simp only [tokens, List.forall_mem_cons, List.forall_mem_append, List.not_mem_nil,
      false_implies, implies_true, and_true, opens, closes]
    exact ⟨by nofun, kind_all_ne_eof inside, by nofun⟩

theorem kind_all_ne_eof : ∀ ss : List Segment, ∀ t ∈ tokensAll ss, t.kind ≠ .eof
  | [] => by simp [tokensAll]
  | s :: ss => by
    rw [tokensAll]
    exact List.forall_mem_append.2 ⟨kind_ne_eof s, kind_all_ne_eof ss⟩

end

end Segment

/-! ## Parsing at a place -/

namespace Place

variable (w : Place)

/-- The place behind statements at the place, and the errors in them. -/
def behind (stmts : List Stmt) (errors : List StaticError) : Place :=
  { w with before := stmts.reverse ++ w.before, errors := errors.reverse ++ w.errors }

theorem task_behind (stmts : List Stmt) (errors : List StaticError) (done : List Stmt) :
    (w.behind stmts errors).task done = w.task (done ++ stmts.reverse) := by
  unfold task behind
  cases w.outer <;> simp

/-- The place between braces at the place. -/
def inside (right : Token) : Place :=
  { w with outer := some (.block (w.pending [])), before := [], tail := right :: w.tail }

variable {w} {t : Token} {ts : List Token} {eof : Token} {n : Nat} {errors : List StaticError}

theorem step_more {done : List Stmt} (h : t.kind ≠ .rightBrace) :
    State.step ⟨w.task done, t :: ts, eof, n, errors⟩ =
      ⟨.declaration (w.pending done), t :: ts, eof, n, errors⟩ := by
  unfold task pending
  cases w.outer with
  | none => exact State.step_program_more
  | some k => exact State.step_declarations_more h

theorem step_declared {done : List Stmt} {stmt : Stmt} :
    State.step ⟨.giveStatement stmt (w.pending done), ts, eof, n, errors⟩ =
      ⟨w.task (stmt :: done), ts, eof, n, errors⟩ := by
  unfold task pending
  cases w.outer <;> rfl

end Place

/-- At the place the tokens are parsed to the statements, with the errors; ids are counted on from `n`
to `m`. -/
def Parses (w : Place) (ts : List Token) (n : Nat) (stmts : List Stmt) (errors : List StaticError)
    (m : Nat) : Prop :=
  State.Leads ⟨w.task [], ts ++ w.tail, w.eof, n, w.errors⟩
    ⟨w.task stmts.reverse, w.tail, w.eof, m, errors.reverse ++ w.errors⟩

namespace Parses

variable {w : Place} {ts ts' : List Token} {n m k : Nat} {stmts stmts' : List Stmt}
  {errors errors' : List StaticError}

theorem nil (w : Place) (n : Nat) : Parses w [] n [] [] n := .refl _

theorem append (first : Parses { w with tail := ts' ++ w.tail } ts n stmts errors m)
    (second : Parses (w.behind stmts errors) ts' m stmts' errors' k) :
    Parses w (ts ++ ts') n (stmts ++ stmts') (errors ++ errors') k := by
  unfold Parses at *
  rw [w.task_behind, w.task_behind, List.nil_append] at second
  rw [List.append_assoc, List.reverse_append, List.reverse_append, List.append_assoc]
  exact first.trans second

/-- A block at the place, parsed as its inside is between the braces. -/
theorem block {left right : Token} (opens : left.kind = .leftBrace)
    (closes : right.kind = .rightBrace) (inside : Parses (w.inside right) ts n stmts errors m) :
    Parses w (left :: (ts ++ [right])) n [.block stmts] errors m := by
  have start : State.Leads ⟨w.task [], left :: (ts ++ right :: w.tail), w.eof, n, w.errors⟩
      ⟨(w.inside right).task [], ts ++ right :: w.tail, w.eof, n, w.errors⟩ := by
    refine .next (Place.step_more (by simp [opens])) ?_
    refine .next (State.step_declaration_left ?_ ?_ ?_) ?_
    iterate 3 simp [firstKind, opens]
    exact .next (State.step_statement_block opens) (.refl _)
  have stop : State.Leads
      ⟨(w.inside right).task stmts.reverse, right :: w.tail, w.eof, m, errors.reverse ++ w.errors⟩
      ⟨w.task [.block stmts], w.tail, w.eof, m, errors.reverse ++ w.errors⟩ := by
    refine .next (State.step_declarations_close closes) (.step ?_)
    refine .next Place.step_declared (.of_eq ?_)
    simp [Place.inside]
  unfold Parses
  rw [List.cons_append, List.append_assoc]
  exact start.trans (inside.trans stop)

end Parses

/-! ## Chunks and segments wherever they stand -/

/-- Wherever the tokens stand, they are parsed to the statements, but for the ids, with the errors. -/
def Independent (ts : List Token) (shapes : List Stmt) (errors : List StaticError) : Prop :=
  ∀ (w : Place) (n : Nat), firstKind w.tail ≠ .else → ∃ stmts m,
    Stmt.mapAll (fun _ => 0) id stmts = shapes ∧ Parses w ts n stmts errors m

namespace Independent

variable {ts ts' : List Token} {shapes shapes' : List Stmt} {errors errors' : List StaticError}

theorem nil : Independent [] [] [] := fun w n _ => ⟨[], n, rfl, .nil w n⟩

theorem append (first : Independent ts shapes errors) (second : Independent ts' shapes' errors')
    (starts : ∀ tail, firstKind tail ≠ .else → firstKind (ts' ++ tail) ≠ .else) :
    Independent (ts ++ ts') (shapes ++ shapes') (errors ++ errors') := by
  intro w n next
  obtain ⟨stmts, m, shape, parses⟩ := first { w with tail := ts' ++ w.tail } n (starts _ next)
  obtain ⟨stmts', k, shape', parses'⟩ := second (w.behind stmts errors) m next
  refine ⟨stmts ++ stmts', k, ?_, parses.append parses'⟩
  rw [← shape, ← shape', Stmt.mapAll_eq, Stmt.mapAll_eq, Stmt.mapAll_eq, List.map_append]

theorem block {left right : Token} (opens : left.kind = .leftBrace)
    (closes : right.kind = .rightBrace) (h : Independent ts shapes errors) :
    Independent (left :: (ts ++ [right])) [.block shapes] errors := by
  intro w n _
  have next : firstKind (w.inside right).tail ≠ .else := by
    have closing : firstKind (w.inside right).tail = .rightBrace := closes
    rw [closing]
    nofun
  obtain ⟨stmts, m, shape, parses⟩ := h (w.inside right) n next
  exact ⟨[.block stmts], m, by simp [shape], parses.block opens closes⟩

end Independent

/-- A chunk is parsed to what it is parsed to alone, but for the ids. -/
theorem Chunk.independent (c : Chunk) : Independent c.tokens c.shapes c.errors := by
  intro w n next
  obtain ⟨done, eof, m, errors, alone, there⟩ := State.exists_leads_within next
    (s := ⟨.program [], c.tokens, c.semicolon, 0 + n, []⟩) (.before c.clause trivial)
  have ends : c.final.shift (.ids n) = ⟨.finished done.reverse, [], eof, m, errors⟩ := by
    rw [final, ← State.run_shift, State.shift_ids_program, alone.run_eq, State.run_program_end]
  have statements : done.reverse = Stmt.mapAll (· + n) id c.final.statements := by
    have shifted := @State.statements_shift (.ids n) c.final
    rw [ends] at shifted
    exact shifted
  have noted : errors.reverse = c.errors := by
    have errors_eq := State.errors_shift_ids c.final n
    rw [ends] at errors_eq
    exact congrArg List.reverse errors_eq
  refine ⟨done.reverse, m, ?_, ?_⟩
  · rw [statements]
    exact Stmt.mapAll_mapAll (fun _ => rfl) (fun _ => rfl) _
  · unfold Parses
    rw [← noted, List.reverse_reverse, List.reverse_reverse]
    simpa [State.within] using there

namespace Segment

mutual

theorem independent : ∀ s : Segment,
    Independent s.tokens (s.statements Chunk.shapes) (s.chunks.flatMap Chunk.errors)
  | chunk c => by
    rw [chunks, List.flatMap_singleton]
    exact c.independent
  | block _ inside _ opens closes => (independent_all inside).block opens closes

/-- Segments are parsed one by one. -/
theorem independent_all : ∀ ss : List Segment,
    Independent (tokensAll ss) (statementsAll Chunk.shapes ss) ((chunksAll ss).flatMap Chunk.errors)
  | [] => .nil
  | s :: ss => by
    rw [chunksAll, List.flatMap_append]
    exact (independent s).append (independent_all ss) fun tail next => firstKind_all_ne tail next ss

end

end Segment

/-! ## Whole programs -/

namespace Parsed

/-- The errors that were found, none if there is a program. -/
def errors (p : Parsed) : List StaticError :=
  match p.program with
  | .ok _ => []
  | .error errors => errors

/-- The statements of the program, none if there are errors. -/
def statements (p : Parsed) : List Stmt :=
  match p.program with
  | .ok stmts => stmts
  | .error _ => []

end Parsed

/-- The place of a whole program. -/
def Place.whole (eof : Token) : Place := ⟨none, [], [], eof, []⟩

theorem Parses.program_eq {ts : List Token} {eof : Token} {n m : Nat} {stmts : List Stmt}
    {errors : List StaticError} (h : Parses (.whole eof) ts n stmts errors m)
    (hts : ∀ t ∈ ts, t.kind ≠ .eof) (he : eof.kind = .eof) : program n (ts ++ [eof]) =
      ⟨if errors.isEmpty then .ok stmts else .error errors, m⟩ := by
  have leads : State.Leads ⟨.program [], ts, eof, n, []⟩
      ⟨.program stmts.reverse, [], eof, m, errors.reverse⟩ := by
    simpa [Parses, Place.whole, Place.task] using h
  rw [← Grammar.start_append_eof hts he] at leads
  have ends := program_of_leads leads
  rwa [List.isEmpty_reverse, List.reverse_reverse, List.reverse_reverse] at ends

theorem Independent.program_eq {ts : List Token} {shapes : List Stmt} {errors : List StaticError}
    (h : Independent ts shapes errors) (hts : ∀ t ∈ ts, t.kind ≠ .eof) {eof : Token}
    (he : eof.kind = .eof) (n : Nat) :
    (program n (ts ++ [eof])).errors = errors ∧
      (program n (ts ++ [eof])).program.isOk = errors.isEmpty ∧
      (errors = [] → Stmt.mapAll (fun _ => 0) id (program n (ts ++ [eof])).statements = shapes) := by
  obtain ⟨stmts, m, shape, parses⟩ := h (.whole eof) n nofun
  rw [parses.program_eq hts he]
  cases errors with
  | nil => exact ⟨rfl, rfl, fun _ => shape⟩
  | cons e es => exact ⟨rfl, rfl, nofun⟩

/-- Independent syntax errors are all found, and only they. A source of chunks, and of blocks of them
to any depth, has the errors that its chunks have alone, in their order. So it is a program if each
chunk is one alone; and then its statements are those of the chunks in their blocks, but for the
ids. -/
theorem program_segments (segments : List Segment) (n : Nat) {eof : Token} (he : eof.kind = .eof)
    (ids : Chunk → Nat) (ends : Chunk → Token) (hends : ∀ c, (ends c).kind = .eof) :
    (program n (Segment.tokensAll segments ++ [eof])).errors =
        (Segment.chunksAll segments).flatMap
          (fun c => (program (ids c) (c.tokens ++ [ends c])).errors) ∧
      ((program n (Segment.tokensAll segments ++ [eof])).program.isOk ↔
        ∀ c ∈ Segment.chunksAll segments, (program (ids c) (c.tokens ++ [ends c])).program.isOk) ∧
      ∀ stmts, (program n (Segment.tokensAll segments ++ [eof])).program = .ok stmts →
        Stmt.mapAll (fun _ => 0) id stmts = Segment.statementsAll
          (fun c => Stmt.mapAll (fun _ => 0) id (program (ids c) (c.tokens ++ [ends c])).statements)
          segments := by
  have alone := fun c : Chunk => c.independent.program_eq c.kind_ne_eof (hends c) (ids c)
  obtain ⟨errors, succeeds, shapes⟩ := (Segment.independent_all segments).program_eq
    (Segment.kind_all_ne_eof segments) he n
  refine ⟨?_, ?_, ?_⟩
  · have each : Chunk.errors = fun c => (program (ids c) (c.tokens ++ [ends c])).errors :=
      funext fun c => (alone c).1.symm
    rw [errors, each]
  · rw [succeeds, List.isEmpty_iff, List.flatMap_eq_nil_iff]
    exact forall₂_congr fun c _ => by rw [(alone c).2.1, List.isEmpty_iff]
  · intro stmts accepted
    have none : (Segment.chunksAll segments).flatMap Chunk.errors = [] := by
      rw [accepted] at succeeds
      exact List.isEmpty_iff.1 succeeds.symm
    have found := shapes none
    rw [Parsed.statements, accepted] at found
    rw [found]
    rw [List.flatMap_eq_nil_iff] at none
    exact Segment.statementsAll_congr fun c hc => ((alone c).2.2 (none c hc)).symm

/-- The chunk `print;`, which lacks an expression. -/
def Chunk.lacking : Chunk :=
  ⟨[⟨.print, "print", 1⟩], ⟨.semicolon, ";", 1⟩, @rfl Kind .semicolon, by decide, by decide⟩

/-- The chunk `print nil;`. -/
def Chunk.sound : Chunk :=
  ⟨[⟨.print, "print", 2⟩, ⟨.nil, "nil", 2⟩], ⟨.semicolon, ";", 2⟩, rfl, by decide, by decide⟩

/-- The block of a chunk, on lines of its own. -/
def Segment.braced (inside : Segment) : Segment :=
  .block ⟨.leftBrace, "\x7b", 1⟩ [inside] ⟨.rightBrace, "\x7d", 3⟩ rfl rfl

/-- `print;` is one error wherever it stands, and `print nil;` in a block is a program. -/
theorem program_segments_braced :
    (program 0 (Segment.tokensAll
        [.chunk .lacking, .braced (.chunk .sound), .braced (.chunk .lacking)] ++
          [.endOn 3])).errors =
        [.syntactic ⟨.semicolon, ";", 1⟩ (.expected .expression),
          .syntactic ⟨.semicolon, ";", 1⟩ (.expected .expression)] ∧
      (program 0 (Segment.tokensAll [.braced (.chunk .sound)] ++ [.endOn 3])).program.isOk ∧
      ∀ stmts, (program 0 (Segment.tokensAll [.braced (.chunk .sound)] ++ [.endOn 3])).program =
        .ok stmts → Stmt.mapAll (fun _ => 0) id stmts = [.block [.print (.literal .nil)]] := by
  have faulty := @program_segments
    [.chunk .lacking, .braced (.chunk .sound), .braced (.chunk .lacking)] 0 (.endOn 3) rfl
    (fun _ => 7) (fun _ => .endOn 1) fun _ => rfl
  have right := @program_segments [.braced (.chunk .sound)] 0 (.endOn 3) rfl
    (fun _ => 7) (fun _ => .endOn 1) fun _ => rfl
  -- `print nil;` is read in 22 steps up to where only the end is left
  have read : State.step^[22] (.start 7 (Chunk.sound.tokens ++ [.endOn 1])) =
    ⟨.program [.print (.literal .nil)], [], .endOn 1, 7, []⟩ := rfl
  have alone := program_of_leads (.of_iterate 22 read)
  refine ⟨faulty.1.trans (by decide +kernel), right.2.1.2 (List.forall_mem_singleton.2 ?_), ?_⟩
  · rw [alone]
    rfl
  · intro stmts parsed
    rw [right.2.2 stmts parsed]
    simp only [Segment.statementsAll, Segment.statements, Segment.braced, alone]
    rfl

end Lox.Parse
