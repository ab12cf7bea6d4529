/-
Loops mean what they are written out to. A program that is one `for` loop and the same program with the
loop written out are parsed to the same tree but for ids, so the two come to the same in every session
(`for_means_while`).
-/
import Lox.Proofs.Grammar.Loops
import Lox.Proofs.Sessions.Renamed
import Lox.Proofs.Sessions.Transcript

namespace Lox

open Grammar

/-- The second tree is the first with its ids renamed one to one, but for lines. -/
def Stmt.Renamed (s s' : Stmt) : Prop :=
  ∃ ids : Nat → Nat, ids.Bijective ∧ s.map ids Token.unlined = s'.map id Token.unlined

theorem Stmt.mapAll_unlined (ids : Nat → Nat) (ss : List Stmt) :
    Stmt.mapAll id Token.unlined (Stmt.mapAll ids id ss) = Stmt.mapAll ids Token.unlined ss :=
  mapAll_mapAll (fun _ => rfl) (fun _ => rfl) ss

theorem Stmt.mapAll_of_unlined (ids : Nat → Nat) (ss : List Stmt) :
    Stmt.mapAll ids id (Stmt.mapAll id Token.unlined ss) = Stmt.mapAll ids Token.unlined ss :=
  mapAll_mapAll (fun _ => rfl) (fun _ => rfl) ss

/-! ## Texts -/

/-- A text of the tokens is parsed as they are, but for lines. -/
theorem ScansAs.exists_program {source : String} {ts : List Token} (scans : ScansAs source ts)
    {n m : Nat} {ss : List Stmt} (parsed : Parse.program n (ts ++ [.endOn 1]) = ⟨.ok ss, m⟩) :
    ∃ ss', Parse.program n (Item.tokens (scan source)) = ⟨.ok ss', m⟩ ∧
      Stmt.mapAll id Token.unlined ss' = Stmt.mapAll id Token.unlined ss := by
  refine exists_program_of_content ⟨.endOn 1, by simp, rfl⟩ ?_ parsed
  rw [scans.2, List.map_append]
  rfl

/-- Tokens of texts make a text. -/
theorem exists_scansAs {ts : List Token}
    (scanned : ∀ t ∈ ts, ∃ t' : Token, t'.Scanned ∧ t'.content = t.content) :
    ∃ source, ScansAs source ts := by
  have others : ∃ ts' : List Token, (∀ t ∈ ts', t.Scanned) ∧
      ts'.map Token.content = ts.map Token.content := by
    induction ts with
    | nil => exact ⟨[], List.forall_mem_nil _, rfl⟩
    | cons t ts ih =>
      obtain ⟨t', first, same⟩ := scanned t List.mem_cons_self
      obtain ⟨ts', others, sames⟩ := ih fun t mem => scanned t (List.mem_cons_of_mem _ mem)
      exact ⟨t' :: ts', List.forall_mem_cons.2 ⟨first, others⟩, congrArg₂ List.cons same sames⟩
  obtain ⟨ts', scanned, same⟩ := others
  have scans := scansAs_joined scanned
  exact ⟨_, scans.1, scans.2.trans (congrArg (· ++ _) same)⟩

/-- The tokens of a text are scanned. -/
theorem ScansAs.scanned {source : String} {ts : List Token} (scans : ScansAs source ts) {t : Token}
    (ht : t ∈ ts) : ∃ t' : Token, t'.Scanned ∧ t'.content = t.content := by
  obtain ⟨ts', eof, tokens, final, scanned⟩ := exists_tokens source
  have same := scans.2
  rw [tokens, List.map_append, List.map_singleton, final] at same
  have found : t.content ∈ ts'.map Token.content := by
    rw [List.append_cancel_right same]
    exact List.mem_map_of_mem ht
  obtain ⟨t', mem, is⟩ := List.mem_map.1 found
  exact ⟨t', scanned t' mem, is⟩

namespace Grammar.Loop

variable {l : Loop} {ts : List Token}

/-- What is written to the parts of a loop. -/
def marks : List Token :=
  [⟨.while, "while", 1⟩, ⟨.leftParen, "(", 1⟩, ⟨.true, "true", 1⟩, ⟨.rightParen, ")", 1⟩,
    ⟨.leftBrace, "\x7b", 1⟩, ⟨.semicolon, ";", 1⟩, ⟨.rightBrace, "\x7d", 1⟩]

theorem scanned_marks {t : Token} (ht : t ∈ marks) : t.Scanned := by
  have kinds : t.kind ≠ .eof ∧ t ∈ Item.tokens (scan "while (true) \x7b;\x7d") := by
    revert t
    decide +kernel
  exact ⟨kinds.1, _, Item.mem_tokens.1 kinds.2⟩

theorem mem_whileForm {t : Token} (ht : t ∈ l.whileForm) : t ∈ l.statement.tokens ∨ t ∈ marks := by
  obtain ⟨keyword, opening, initializer, test, semicolon, step, closing, body⟩ := l
  cases initializer <;> cases test <;> cases step <;>
    simp only [whileForm, whileLoop, condition, repeated, braced, statement, marks,
      Derivation.tokens, List.mem_append, List.mem_cons, List.not_mem_nil, or_false] at ht ⊢ <;>
    grind

/-- A loop of a text can be written out as a text. -/
theorem exists_written (h : l.Reads ts) {source : String} (scans : ScansAs source ts) :
    ∃ source', ScansAs source' l.whileForm := by
  refine exists_scansAs fun t ht => ?_
  rcases mem_whileForm ht with ht | ht
  · rw [h.tokens] at ht
    exact scans.scanned ht
  · exact ⟨t, scanned_marks ht, rfl⟩

/-! ## A loop and what it is written out to -/

/-- Tokens of the loop written out are parsed to its tree with other ids. -/
theorem exists_renamed (h : l.Reads ts) {us : List Token} {eof : Token}
    (same : us.map Token.content = l.whileForm.map Token.content) (ends : eof.kind = .eof)
    (n : Nat) : ∃ s, Parse.program n (us ++ [eof]) = ⟨.ok [s], (l.statement.tree n).2⟩ ∧
      (l.statement.tree n).1.Renamed s := by
  have sames : (us ++ [eof]).map Token.content = (l.whileForm ++ [eof]).map Token.content := by
    rw [List.map_append, same, List.map_append]
  obtain ⟨ss, parsed, lines⟩ :=
    exists_program_of_content ⟨eof, by simp, ends⟩ sames (program_whileForm h ends n)
  cases ss with
  | nil => cases lines
  | cons s others => cases others with
    | cons s' others => cases congrArg List.length lines
    | nil =>
      refine ⟨s, parsed, l.ids n, bijective_exchange .., ?_⟩
      have same := lines.trans (Stmt.mapAll_unlined (l.ids n) [(l.statement.tree n).1])
      exact (List.cons.inj same).1.symm

/-- A text of the loop and a text of the loop written out come to the same. -/
theorem equates (h : l.Reads ts) {s : Session} {past : List Program} (fits : s.Fits past)
    (blind : ∀ n ∈ s.interpreter.natives, n.Blind) {source source' : String}
    (scans : ScansAs source ts) (scans' : ScansAs source' l.whileForm) :
    s.Equates source source' := by
  obtain ⟨ss, parsed, lines⟩ := scans.exists_program (program_loop h rfl s.nextId)
  obtain ⟨ss', parsed', lines'⟩ := scans'.exists_program (program_whileForm h rfl s.nextId)
  let ids := l.ids s.nextId
  have same : Stmt.mapAll ids Token.unlined ss = Stmt.mapAll id Token.unlined ss' := by
    rw [← Stmt.mapAll_of_unlined, lines, Stmt.mapAll_of_unlined, lines']
    exact (Stmt.mapAll_unlined ids [(l.statement.tree s.nextId).1]).symm
  refine fits.equates blind scans.1 scans'.1 parsed parsed' same
    (fun i hi => exchange_of_lt (by omega)) fun i hi => exchange_of_le ?_
  rwa [tree_snd] at hi

/-- The loop means its `while` form. Whatever tokens, but for lines, the loop is written out to, they are
parsed to the tree of the loop with its ids renamed; every text of the loop can be written out; and in
every session that is reached by runs the text that is written out comes to the same. -/
structure MeansWhile (l : Loop) (ts : List Token) (n m : Nat) (s : Stmt) : Prop where
  parses : ∀ us eof, us.map Token.content = l.whileForm.map Token.content → eof.kind = .eof →
    ∃ s', Parse.program n (us ++ [eof]) = ⟨.ok [s'], m⟩ ∧ s.Renamed s'
  writes : ∀ source, ScansAs source ts → ∃ source', ScansAs source' l.whileForm
  equates : ∀ {maxDepth sink clock past t},
    (Session.start (.start maxDepth sink clock)).Reaches past t → ∀ source source',
      ScansAs source ts → ScansAs source' l.whileForm → t.Equates source source'

end Grammar.Loop

/-- A program that is one `for` loop means what it is written out to: its tokens can be read as a loop,
and however they are read, the loop means its `while` form. -/
theorem for_means_while {n : Nat} {ts : List Token} {eof : Token} {s : Stmt}
    (kinds : ∀ t ∈ ts, t.kind ≠ .eof) (ends : eof.kind = .eof)
    (starts : Parse.firstKind ts = .for)
    (parses : (Parse.program n (ts ++ [eof])).program = .ok [s]) :
    (∃ l : Loop, l.Reads ts) ∧ ∀ l : Loop, l.Reads ts →
      l.MeansWhile ts n (Parse.program n (ts ++ [eof])).nextId s := by
  refine ⟨exists_loop kinds ends starts parses, fun l reads => ?_⟩
  have parsed := Loop.program_loop reads ends n
  rw [parsed] at parses ⊢
  obtain rfl := List.cons.inj (Except.ok.inj parses) |>.1
  refine ⟨fun us eof' same ends' => Loop.exists_renamed reads same ends' n,
    fun source => Loop.exists_written reads, fun reached source source' => ?_⟩
  exact Loop.equates reads (reached.fits (Session.fits_start ..)) reached.blind

/-- `for (var a = true; a; a = nil) print a;` -/
def once : Loop where
  keyword := written .for "for"
  opening := written .leftParen "("
  initializer := .variableInitializer <| .initialized (written .var "var")
    (written .identifier "a") (written .equal "=") (constant (written .true "true").1 (.bool true) rfl)
    (written .semicolon ";")
  test := .present (named "a")
  semicolon := written .semicolon ";"
  step := .present <| .assign (written .identifier "a") (written .equal "=")
    (constant (written .nil "nil").1 .nil rfl)
  closing := written .rightParen ")"
  body := .print (written .print "print") (named "a") (written .semicolon ";")

/-- A loop with all of its clauses, and the same written out. -/
theorem for_means_while_once :
    Parse.firstKind once.statement.tokens = .for ∧ once.Reads once.statement.tokens ∧
      ScansAs "for (var a = true; a; a = nil) print a;" once.statement.tokens ∧
        ScansAs "\x7b var a = true; while (a) \x7b print a; a = nil; \x7d \x7d" once.whileForm ∧
          (Session.start (.start 1 .unlimited (.stopped 0))).Equates
            "for (var a = true; a; a = nil) print a;"
            "\x7b var a = true; while (a) \x7b print a; a = nil; \x7d \x7d" := by
  have reads : once.Reads once.statement.tokens :=
    ⟨rfl, by simp [once, Loop.statement, constant, named, orOfCall], trivial⟩
  have scans : ScansAs "for (var a = true; a; a = nil) print a;" once.statement.tokens :=
    ⟨by decide +kernel, by decide +kernel⟩
  have scans' : ScansAs "\x7b var a = true; while (a) \x7b print a; a = nil; \x7d \x7d"
      once.whileForm := ⟨by decide +kernel, by decide +kernel⟩
  have ends : (Token.endOn 1).kind = .eof := rfl
  have parses := congrArg Parse.Parsed.program (Loop.program_loop reads ends 0)
  have means := for_means_while (by decide) ends rfl parses
  exact ⟨rfl, reads, scans, scans', (means.2 once reads).equates .none _ _ scans scans'⟩

end Lox
