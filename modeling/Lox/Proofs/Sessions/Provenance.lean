/-
Where the tokens of diagnostics come from. No phase looks at the line of a token, so what comes out of
tokens that are moved to other lines is what comes out of them where they stand, moved likewise. If all
tokens of some texts are left where they are, then nothing moves that is made of them: not the errors
of the static checks (`errors_left`), not the code on the heap (`MadeOf.runs`), and not the error that
code fails with (`token_mem`). A token that was in none of the texts could be moved.

The main result is `diagnostics_quote_source`: every token that an error of a session quotes was
scanned from the text that is run, or for runtime errors from one that was accepted before.
-/
import Lox.Proofs.Sessions.Transcript
import Lox.Proofs.Token.Lexemes

namespace Lox

/-! ## Leaving tokens where they are -/

namespace Recoding

/-- The tokens and all ids stay as they are. -/
structure Leaves (r : Recoding) (ts : List Token) : Prop where
  ids : ∀ i, r.ids i = i
  token : ∀ t ∈ ts, r.token t = t

theorem Leaves.mono {r : Recoding} {ts us : List Token} (left : r.Leaves us)
    (sub : ∀ t ∈ ts, t ∈ us) : r.Leaves ts := ⟨left.ids, fun t mem => left.token t (sub t mem)⟩

/-- All tokens but some are moved down by one line. -/
def moving (ts : List Token) : Recoding where
  ids := id
  token t := if t ∈ ts then t else { t with line := t.line + 1 }
  kind_token t := by split <;> rfl
  lexeme_token t := by split <;> rfl

theorem leaves_moving (ts : List Token) : (moving ts).Leaves ts :=
  ⟨fun _ => rfl, fun _ mem => if_pos mem⟩

/-- What stays where it is with the tokens is one of them. -/
theorem mem_of_left {ts : List Token} {t : Token}
    (left : ∀ r : Recoding, r.Leaves ts → r.token t = t) : t ∈ ts := by
  have stays := left (moving ts) (leaves_moving ts)
  by_cases mem : t ∈ ts
  · exact mem
  · have moved : (moving ts).token t = { t with line := t.line + 1 } := if_neg mem
    rw [moved] at stays
    have lines : t.line + 1 = t.line := congrArg Token.line stays
    omega

end Recoding

/-- An error that stays as it is while all lines of errors without tokens change has a token, and that
stays as it is. -/
theorem StaticError.token?_of_left {token : Token → Token} {e : StaticError}
    (left : e.map token (· + 1) = e) : ∃ t, e.token? = some t ∧ token t = t := by
  cases e with
  | lexical line fault =>
    have lines : line + 1 = line := by
      injection left
    omega
  | syntactic t fault =>
    injection left with same
    exact ⟨t, rfl, same⟩
  | scoping t fault =>
    injection left with same
    exact ⟨t, rfl, same⟩

/-! ## Static checks -/

section

variable {r : Recoding} {source : String}

/-- A parse is made of the tokens that it is given. -/
theorem program_left (left : r.Leaves (Item.tokens (scan source))) (n : Nat) :
    (Parse.program n (Item.tokens (scan source))).shift ⟨0, r.token, r.kind_token, (· + 1)⟩ =
      Parse.program n (Item.tokens (scan source)) := by
  obtain ⟨ts, eof, tokens, final, -⟩ := exists_tokens source
  have ends : ∃ t ∈ Item.tokens (scan source), t.kind = .eof := by
    refine ⟨eof, ?_, congrArg Prod.fst final⟩
    rw [tokens]
    exact List.mem_append_right _ (List.mem_singleton_self _)
  have same : (Item.tokens (scan source)).map r.token = Item.tokens (scan source) :=
    (List.map_congr_left left.token).trans (List.map_id _)
  have shifted := @Parse.program_map ⟨0, r.token, r.kind_token, (· + 1)⟩ n _ ends
  rw [← shifted]
  exact congrArg (Parse.program n) same

theorem statements_left (left : r.Leaves (Item.tokens (scan source))) {n : Nat} {ss : List Stmt}
    (parsed : (Parse.program n (Item.tokens (scan source))).program = .ok ss) :
    Stmt.mapAll r.ids r.token ss = ss := by
  have same := congrArg Parse.Parsed.program (program_left left n)
  have ids : r.ids = (· + 0) := funext left.ids
  rw [Parse.Parsed.shift, parsed] at same
  rw [ids]
  exact Except.ok.inj same

/-- The static checks quote only tokens that they are given. -/
theorem errors_left (left : r.Leaves (Item.tokens (scan source))) {s t : Session}
    {errors : List StaticError} (h : s.check source = (.error errors, t)) {e : StaticError}
    (mem : e ∈ errors) : e ∈ Item.errors (scan source) ∨ e.map r.token (· + 1) = e := by
  have fixed {es : List StaticError} (same : es.map (StaticError.map r.token (· + 1)) = es)
      (mem : e ∈ es) : e.map r.token (· + 1) = e := by
    rw [← List.map_id es, List.map_map] at same
    exact List.map_inj_left.1 same e mem
  simp only [Session.check, Prod.mk.injEq] at h
  obtain ⟨h, rfl⟩ := h
  cases parsed : (Parse.program s.nextId (Item.tokens (scan source))).program with
  | error syntactic =>
    have same := congrArg Parse.Parsed.program (program_left left s.nextId)
    rw [Parse.Parsed.shift, parsed] at same
    rw [parsed] at h
    cases h
    rcases List.mem_append.1 mem with lexical | mem
    · exact .inl lexical
    · exact .inr (fixed (Except.error.inj same) mem)
  | ok ss =>
    rw [parsed] at h
    cases lexical : Item.errors (scan source) with
    | cons e' es =>
      rw [lexical] at h
      cases h
      exact .inl mem
    | nil =>
      rw [lexical] at h
      cases resolved : distancesOf ss with
      | ok ds =>
        simp only [resolved] at h
        cases h
      | error scoping =>
        simp only [resolved] at h
        cases h
        obtain ⟨scoping', resolved', same⟩ :=
          error_distancesOf_mapAll r (r.unseen_map (· + 1)) resolved
        rw [statements_left left parsed, resolved] at resolved'
        cases resolved'
        rw [List.map_id] at same
        exact .inr (fixed same.symm mem)

end

/-! ## Runs -/

/-- The code of the functions on the heap is made of the tokens: it stays as it is with them. -/
def Heap.MadeOf (h : Heap) (ts : List Token) : Prop :=
  ∀ r : Recoding, r.Leaves ts → h.recode r = h.recode (.renumbered id)

/-- The evaluation has no other tokens in it: it stays as it is with them. -/
def Eval.State.MadeOf (e : Eval.State) (ts : List Token) : Prop :=
  ∀ r : Recoding, r.Leaves ts → e.recode r ∅ = e.recode (.renumbered id) ∅

namespace Eval.State.MadeOf

variable {e : State} {ts : List Token}

/-- A run makes up no tokens. -/
theorem run (made : e.MadeOf ts) (blind : ∀ n ∈ e.it.natives, n.Blind) (n : Nat) :
    (e.run n).MadeOf ts := by
  intro r left
  refine run_recode_eq (fun _ => rfl) (made r left) blind n fun m _ ref _ => ?_
  rw [left.ids]

theorem heap (made : e.MadeOf ts) : e.it.heap.MadeOf ts := by
  intro r left
  exact congrArg (·.it.heap) (made r left)

/-- The token that an evaluation fails at is one of those. -/
theorem token_mem (made : e.MadeOf ts) {error : RuntimeError} {t : Token}
    (failed : e.control = .ended (.fault error)) (blamed : error.token? = some t) : t ∈ ts := by
  apply Recoding.mem_of_left
  intro r left
  have same := congrArg (·.control) (made r left)
  simp only [State.recode, failed, Control.recode, Outcome.recode] at same
  injection same with same
  injection same with same
  cases error with
  | failure token fault =>
    cases blamed
    injection same
  | stackOverflow token =>
    cases blamed
    injection same
  | output refusal => cases blamed

end Eval.State.MadeOf

/-! ## Sessions -/

/-- The tokens of the texts. -/
def tokensOf (texts : List String) : List Token := texts.flatMap fun text => Item.tokens (scan text)

/-- Was a text rejected, and not run at all? -/
def Rejected : Except RunError Unit → Prop
  | .error (.rejected _) => True
  | _ => False

instance (r : Except RunError Unit) : Decidable (Rejected r) :=
  match r with
  | .error (.rejected _) => .isTrue trivial
  | .error (.failed _) => .isFalse id
  | .ok _ => .isFalse id

/-- The texts that were not rejected. -/
def acceptedTexts : List String → List (Except RunError Unit) → List String
  | source :: sources, r :: rs =>
    if Rejected r then acceptedTexts sources rs else source :: acceptedTexts sources rs
  | _, _ => []

namespace Session

/-- The session holds no code but that of the texts. -/
structure MadeOf (s : Session) (texts : List String) : Prop where
  heap : s.interpreter.heap.MadeOf (tokensOf texts)
  blind : ∀ n ∈ s.interpreter.natives, n.Blind

variable {s t u : Session} {texts : List String} {source : String}

theorem madeOf_start (maxDepth : Nat) (sink : Sink) (clock : Clock) :
    (start (.start maxDepth sink clock)).MadeOf [] := by
  constructor
  · intro r _
    have none : (start (.start maxDepth sink clock)).interpreter.heap.functions = #[] := rfl
    simp only [Heap.recode, none, Array.map_empty]
  · exact Reaches.none.blind

/-- An accepted text is run in code of its own and of the texts before. -/
theorem MadeOf.launched (made : s.MadeOf texts) {p : Program} (h : s.check source = (.ok p, t)) :
    (t.launch p).MadeOf (tokensOf (texts ++ [source])) := by
  intro r left
  have before : r.Leaves (tokensOf texts) := left.mono fun t mem => by
    rw [tokensOf, List.flatMap_append]
    exact List.mem_append_left _ mem
  have own : r.Leaves (Item.tokens (scan source)) := left.mono fun t mem => by
    rw [tokensOf, List.flatMap_append, List.flatMap_singleton]
    exact List.mem_append_right _ mem
  have mapped := statements_left own (parsed_of_check h).1
  have code : Stmt.recodeAll r p.statements = Stmt.recodeAll (.renumbered id) p.statements := by
    have twice := @Stmt.recodeAll_map r.ids r.token r (.renumbered id) (fun _ => rfl) (fun _ => rfl)
      p.statements
    rw [mapped] at twice
    exact twice.symm
  have heap := made.heap r before
  rw [(checked_of_check h).launch_eq]
  simp only [Eval.State.recode, Eval.Control.recode, code]
  exact congrArg (fun heap => Eval.State.mk _ { s.interpreter with heap, distances := ∅ }) heap

theorem MadeOf.ended (made : s.MadeOf texts) {p : Program} (h : s.check source = (.ok p, t))
    {o : Eval.Outcome} {it : Interpreter} (ended : (t.launch p).Ends o it) :
    Eval.State.MadeOf ⟨.ended o, it⟩ (tokensOf (texts ++ [source])) := by
  obtain ⟨n, ended⟩ := ended
  have blind : ∀ n ∈ (t.launch p).it.natives, n.Blind := by
    rw [(checked_of_check h).launch_eq]
    exact made.blind
  rw [← ended]
  exact (made.launched h).run blind n

theorem not_rejected_settle (s : Session) (p : Program) (o : Eval.Outcome) (it : Interpreter) :
    ¬Rejected (s.settle p o it).1 := by
  unfold settle
  cases it.conclude o with
  | ok => exact id
  | error e => exact id

/-- Behind a run the session holds no code but that of the texts before, and of its own text if that
was accepted. -/
theorem MadeOf.behind (made : s.MadeOf texts) {r : Except RunError Unit}
    (ran : s.Runs source r t) : t.MadeOf (if Rejected r then texts else texts ++ [source]) := by
  cases h : s.check source with
  | mk result u =>
    cases result with
    | error errors =>
      obtain ⟨rfl, rfl⟩ := (runs_of_error h).1 ran
      have kept := interpreter_of_check h
      have rejected : Rejected (.error (.rejected errors)) := trivial
      rw [if_pos rejected]
      constructor
      · rw [kept]
        exact made.heap
      · rw [kept]
        exact made.blind
    | ok p =>
      obtain ⟨o, it, ended, settled⟩ := (runs_of_ok h).1 ran
      have passed := not_rejected_settle u p o it
      have heap := heap_settle u p o it
      have natives := (checked_of_check h).natives_settle ended
      rw [settled] at passed heap natives
      rw [if_neg passed]
      constructor
      · rw [heap]
        exact (made.ended h ended).heap
      · rw [natives]
        exact made.blind

theorem MadeOf.runs (made : s.MadeOf texts) {sources : List String}
    {rs : List (Except RunError Unit)} (ran : s.RunsAll sources rs t) :
    t.MadeOf (texts ++ acceptedTexts sources rs) := by
  -- text by text, with all texts that were accepted so far
  induction ran generalizing texts with
  | none =>
    rw [acceptedTexts, List.append_nil]
    · exact made
    · nofun
  | @run s t u source sources r rs first _ ih =>
    have behind := ih (made.behind first)
    rw [acceptedTexts]
    split at behind
    · rwa [if_pos ‹_›]
    · rwa [if_neg ‹_›, List.append_cons]

/-- A program that is concluded with an error at a token was stopped by that error: a sink that cannot
be flushed has no token. -/
theorem fault_of_settle {p : Program} {o : Eval.Outcome} {it : Interpreter} {error : RuntimeError}
    (settled : s.settle p o it = (.error (.failed error), t)) {token : Token}
    (blamed : error.token? = some token) : o = .fault error := by
  have result := congrArg Prod.fst settled
  unfold settle at result
  have flushed (h : it.sink.flush.mapError .output = .error error) : o = .fault error := by
    cases flush : it.sink.flush with
    | ok =>
      rw [flush] at h
      cases h
    | error refusal =>
      rw [flush] at h
      cases h
      cases blamed
  cases concluded : it.conclude o with
  | ok =>
    rw [concluded] at result
    cases result
  | error e =>
    rw [concluded] at result
    cases result
    cases o with
    | value v => exact flushed concluded
    | flow f => exact flushed concluded
    | fault e => cases concluded; rfl

/-- A run fails at a token of its own text or of a text before. -/
theorem MadeOf.blamed (made : s.MadeOf texts) {error : RuntimeError}
    (ran : s.Runs source (.error (.failed error)) t) {token : Token}
    (blamed : error.token? = some token) : token ∈ tokensOf (texts ++ [source]) := by
  cases h : s.check source with
  | mk result u =>
    cases result with
    | error errors =>
      obtain ⟨rejected, -⟩ := (runs_of_error h).1 ran
      cases rejected
    | ok p =>
      obtain ⟨o, it, ended, settled⟩ := (runs_of_ok h).1 ran
      obtain rfl := fault_of_settle settled blamed
      exact (made.ended h ended).token_mem rfl blamed

end Session

/-! ## Diagnostics -/

/-- The error is blamed on a line of the source. If it quotes a token, that is one of the source, on
that line. -/
structure StaticError.PointsInto (source : String) (e : StaticError) : Prop where
  one_le : 1 ≤ e.line
  le_lineCount : e.line ≤ lineCount source
  quoted : ∀ t, e.token? = some t → t ∈ Item.tokens (scan source) ∧ t.line = e.line

theorem StaticError.line_eq_of_token? {e : StaticError} {t : Token} (h : e.token? = some t) :
    t.line = e.line := by
  cases e with
  | lexical => cases h
  | syntactic => cases h; rfl
  | scoping => cases h; rfl

/-- The static checks blame nothing but the source. -/
theorem Session.pointsInto_of_check {s t : Session} {source : String} {errors : List StaticError}
    (h : s.check source = (.error errors, t)) {e : StaticError} (mem : e ∈ errors) :
    e.PointsInto source := by
  let own := Item.tokens (scan source)
  by_cases lexical : e ∈ Item.errors (scan source)
  · obtain ⟨none, one_le, le⟩ := line_of_mem_errors lexical
    refine ⟨one_le, le, fun t quoted => ?_⟩
    rw [none] at quoted
    cases quoted
  · -- the error stays as it is with the tokens of the source, and so does the token that it quotes
    have left (r : Recoding) (left : r.Leaves own) : e.map r.token (· + 1) = e :=
      (errors_left left h mem).resolve_left lexical
    obtain ⟨t, quoted, -⟩ := StaticError.token?_of_left (left _ (Recoding.leaves_moving own))
    have quotes : t ∈ own := by
      refine Recoding.mem_of_left fun r leaves => ?_
      obtain ⟨t', quoted', same⟩ := StaticError.token?_of_left (left r leaves)
      rw [quoted] at quoted'
      cases quoted'
      exact same
    obtain ⟨one_le, le⟩ := line_of_mem_tokens quotes
    rw [StaticError.line_eq_of_token? quoted] at one_le le
    refine ⟨one_le, le, fun u quoted' => ?_⟩
    rw [quoted] at quoted'
    cases quoted'
    exact ⟨quotes, StaticError.line_eq_of_token? quoted⟩

/-- Every diagnostic points into real source. In a session that has run any texts, whatever came of
them, the errors of a text that is rejected are on lines of that text and quote its tokens; and if a
run fails, then because of the sink or at a token of its text or of one that was accepted before. -/
theorem diagnostics_quote_source {maxDepth : Nat} {sink : Sink} {clock : Clock}
    {sources : List String} {rs : List (Except RunError Unit)} {s t : Session} {source : String}
    {r : Except RunError Unit}
    (before : (Session.start (.start maxDepth sink clock)).RunsAll sources rs s)
    (ran : s.Runs source r t) :
    (∀ errors, r = .error (.rejected errors) → ∀ e ∈ errors, e.PointsInto source) ∧
      ∀ error, r = .error (.failed error) →
        (∃ refusal, error = .output refusal) ∨
          ∃ token, error.token? = some token ∧
            ∃ text ∈ acceptedTexts sources rs ++ [source], token ∈ Item.tokens (scan text) := by
  constructor
  · rintro errors rfl e mem
    cases h : s.check source with
    | mk result u =>
      cases result with
      | error errors' =>
        obtain ⟨same, -⟩ := (Session.runs_of_error h).1 ran
        cases same
        exact Session.pointsInto_of_check h mem
      | ok p =>
        obtain ⟨o, it, -, settled⟩ := (Session.runs_of_ok h).1 ran
        have passed := Session.not_rejected_settle u p o it
        rw [settled] at passed
        exact absurd trivial passed
  · rintro error rfl
    have made := (Session.madeOf_start maxDepth sink clock).runs before
    have quotes {token : Token} (blamed : error.token? = some token) :
        ∃ text ∈ acceptedTexts sources rs ++ [source], token ∈ Item.tokens (scan text) :=
      List.mem_flatMap.1 (made.blamed ran blamed)
    cases error with
    | failure token fault => exact .inr ⟨token, rfl, quotes rfl⟩
    | stackOverflow token => exact .inr ⟨token, rfl, quotes rfl⟩
    | output refusal => exact .inl ⟨refusal, rfl⟩

/-- The body of a function fails at a token of the text that declared it, two lines from where the
text that calls it ends; and a text that is rejected has errors of two kinds. -/
theorem diagnostics_quote_source_closure :
    let declares := "fun f(a) \x7b\n\n a(); \x7d"
    ∃ s, (Session.start (.start 1 .unlimited (.stopped 0))).RunsAll [declares] [.ok ()] s ∧
      (∃ t error token, s.Runs "f(nil);" (.error (.failed error)) t ∧
        error.token? = some token ∧ token.line = 3 ∧
          ∃ text ∈ acceptedTexts [declares] [.ok ()] ++ ["f(nil);"],
            token ∈ Item.tokens (scan text)) ∧
        ∃ t errors, s.Runs "f(nil); #\nprint f +;" (.error (.rejected errors)) t ∧
          errors.map StaticError.line = [1, 2] ∧
            ∀ e ∈ errors, e.PointsInto "f(nil); #\nprint f +;" := by
  intro declares
  have ends : ((Session.start (.start 1 .unlimited (.stopped 0))).run 9 declares).map (fun x =>
      (x.1, (x.2.run 30 "f(nil);").map Prod.fst,
        (x.2.run 0 "f(nil); #\nprint f +;").map Prod.fst)) =
      some (.ok (), some (.error (.failed (.failure ⟨.rightParen, ")", 3⟩ .notCallable))),
        some (.error (.rejected [.lexical 1 .unexpectedCharacter,
          .syntactic ⟨.semicolon, ";", 2⟩ (.expected .expression)]))) := by
    decide +kernel
  obtain ⟨⟨result, s⟩, first, found⟩ := Option.map_eq_some_iff.1 ends
  rw [Prod.mk.injEq, Prod.mk.injEq] at found
  obtain ⟨rfl, fails, rejects⟩ := found
  obtain ⟨⟨_, t⟩, fails, rfl⟩ := Option.map_eq_some_iff.1 fails
  obtain ⟨⟨_, u⟩, rejects, rfl⟩ := Option.map_eq_some_iff.1 rejects
  have before := Session.RunsAll.run ⟨9, first⟩ (.none s)
  have ran : s.Runs "f(nil);" _ t := ⟨30, fails⟩
  have rejected : s.Runs "f(nil); #\nprint f +;" _ u := ⟨0, rejects⟩
  refine ⟨s, before, ⟨t, _, _, ran, rfl, rfl, ?_⟩, u, _, rejected, rfl, ?_⟩
  · rcases (diagnostics_quote_source before ran).2 _ rfl with
      ⟨refusal, failed⟩ | ⟨token, blamed, quotes⟩
    · cases failed
    · cases blamed
      exact quotes
  · exact (diagnostics_quote_source before rejected).1 _ rfl

end Lox
