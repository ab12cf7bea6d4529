/-
The way of a parse along its tokens. A step leaves the tokens, takes the next one or skips some, and
never goes back (`stride_step`); it ends the parse only behind the last token, and it looks for a
declaration only for a list of them. What it looks for in front of a declaration's first token is of
a few sorts only (`Task.Fresh`), and giving up there takes the token: so a list of declarations goes
on behind the place where it was (`Leads.shorter`), whatever became of the declaration
(`exists_leads_resumes`), and every parse ends (`exists_steps`).
-/
import Lox.Parse.Cursor
import Lox.Proofs.Grammar.Complete
import Lox.Proofs.Grammar.Within
import Mathlib.Data.List.TakeWhile
import Mathlib.Logic.Function.Iterate

namespace Lox.Parse

/-! ## Tasks -/

/-- A list of declarations waits. -/
def Pending.IsList : Pending .statement → Prop
  | .program _ | .declarations _ _ => True
  | _ => False

/-- The list of declarations that waits goes on, with what has been added to it. -/
def Pending.Resumes : Pending .statement → Task → Prop
  | .program done, task => ∃ more, task = .program (more ++ done)
  | .declarations done k, task => ∃ more, task = .declarations (more ++ done) k
  | _, _ => False

/-- The parse may be at the first token of a declaration, or gives it up. -/
def Task.Fresh : Task → Prop
  | .declaration _ | .statement _ | .expression _ | .level _ _ | .unary _ | .primary _
  | .fail _ _ => True
  | _ => False

/-- The parse goes on, with a declaration only if a list waits for it. -/
def Task.GoesOn : Task → Prop
  | .finished _ => False
  | .declaration k => k.IsList
  | _ => True

namespace State

/-! ## What a step does to the tokens -/

/-- The parse is finished, or about to be: it is behind the last token. -/
def Done (s : State) : Prop := s.ended = true ∨ s.rest = [] ∧ ∃ done, s.task = .program done

/-- A step that leaves the tokens, takes the next one, skips some, or ends the parse. -/
inductive Stride (s : State) : State → Prop
  | stay {task : Task} {n : Nat} {errors : List StaticError} (fresh : s.task.Fresh → task.Fresh)
    (goes : task.GoesOn) : Stride s ⟨task, s.rest, s.eof, n, errors⟩
  | take {task : Task} {n : Nat} {errors : List StaticError} (more : s.rest ≠ [])
    (goes : task.GoesOn) : Stride s ⟨task, s.rest.tail, s.eof, n, errors⟩
  | skip {task : Task} {n : Nat} {errors : List StaticError} (goes : task.GoesOn) :
    Stride s ⟨task, synchronize s.rest, s.eof, n, errors⟩
  | done {task : Task} {n : Nat} {errors : List StaticError} (done : s.Done) :
    Stride s ⟨task, s.rest, s.eof, n, errors⟩

/-- What was noted before the step plays no part. -/
theorem Stride.of_note {s t : State} {fault : SyntaxFault} (h : Stride (s.note fault) t) :
    Stride s t := by
  cases h with
  | stay fresh goes => exact .stay fresh goes
  | take more goes => exact .take more goes
  | skip goes => exact .skip goes
  | done done => exact .done done

variable {s : State}

theorem ne_nil_of_look {kind : Kind} (look : s.look = kind) (other : kind ≠ .eof) : s.rest ≠ [] := by
  intro none
  refine other ?_
  rw [← look, State.look, none]

theorem stride_take {task : Task} {kind : Kind} (look : s.look = kind) (other : kind ≠ .eof)
    (goes : task.GoesOn) : Stride s (s.take task) := .take (ne_nil_of_look look other) goes

theorem stride_require (kind : Kind) (what : Expected) {p : Part} (k : Pending p)
    {task : Token → Task} (goes : ∀ t, (task t).GoesOn) :
    Stride s (s.require kind what k task) := by
  unfold require
  split
  · rename_i rest
    split
    · exact .take (by simp [rest]) (goes _)
    · exact .stay (fun _ => trivial) trivial
  · exact .stay (fun _ => trivial) trivial

theorem stride_branch (kind : Kind) {taken : Token → Task} {left : Task}
    (goes : ∀ t, (taken t).GoesOn) (fresh : s.task.Fresh → left.Fresh) (goes' : left.GoesOn) :
    Stride s (s.branch kind taken left) := by
  unfold branch
  split
  · rename_i rest
    split
    · exact .take (by simp [rest]) (goes _)
    · exact .stay fresh goes'
  · exact .stay fresh goes'

theorem goesOn_operandTask (l : Level) (k : Pending .expression) : (operandTask l k).GoesOn := by
  cases l <;> trivial

theorem fresh_operandTask (l : Level) (k : Pending .expression) : (operandTask l k).Fresh := by
  cases l <;> trivial

/-- An expression is handed over behind its last token. -/
theorem stride_giveExpression (old : ¬ s.task.Fresh) (e : Expr) (k : Pending .expression) :
    Stride s (s.giveExpression e k) := by
  have stale {task : Task} : s.task.Fresh → task.Fresh := fun fresh => absurd fresh old
  cases k with
  | assignment k => exact stride_branch _ (fun _ => trivial) stale trivial
  | assigned target equals k =>
    simp only [giveExpression, assign]
    split <;> exact .stay stale trivial
  | operators l k =>
    simp only [giveExpression]
    split
    · rename_i admitted
      refine .take (fun none => ?_) (goesOn_operandTask l _)
      rw [look, none, admits_eof] at admitted
      cases admitted
    · exact .stay stale trivial
  | rightOperand l left op k | operand op k => exact .stay stale trivial
  | trailers k =>
    simp only [giveExpression, trailers]
    split
    · exact stride_take (by assumption) (by simp) trivial
    · exact stride_take (by assumption) (by simp) trivial
    · exact .stay stale trivial
  | argument callee done k =>
    simp only [giveExpression]
    split
    · exact stride_take (by assumption) (by simp) trivial
    · exact stride_require _ _ _ fun _ => trivial
  | group k | initializer name k | ifTest k | whileTest k | printed k | returned keyword k
  | expressionStatement k | forTest initializer k | forStep initializer test k =>
    exact stride_require _ _ _ fun _ => trivial

theorem stride_giveStatement (old : ¬ s.task.Fresh) (stmt : Stmt) (k : Pending .statement) :
    Stride s (s.giveStatement stmt k) := by
  have stale {task : Task} : s.task.Fresh → task.Fresh := fun fresh => absurd fresh old
  cases k with
  | thenBranch condition k => exact stride_branch _ (fun _ => trivial) stale trivial
  | _ => exact .stay stale trivial

theorem stride_fail (e : StaticError) {p : Part} (k : Pending p) : Stride s (s.fail e k) := by
  cases k with
  | program done | declarations done k => exact .skip trivial
  | _ => exact .stay (fun _ => trivial) trivial

theorem stride_step (s : State) : Stride s s.step := by
  obtain ⟨task, rest, eof, n, errors⟩ := s
  cases task with
  | program done =>
    simp only [step]
    split
    · exact .done (.inr ⟨rfl, done, rfl⟩)
    · exact .stay (fun _ => trivial) trivial
  | declarations done k =>
    simp only [step]
    split
    · exact .stay (fun _ => trivial) trivial
    · split
      · exact .take (List.cons_ne_nil _ _) trivial
      · exact .stay (fun _ => trivial) trivial
  | methods name done k =>
    simp only [step]
    split
    · exact .stay (fun _ => trivial) trivial
    · split
      · exact .take (List.cons_ne_nil _ _) trivial
      · exact .stay id trivial
  | declaration k =>
    simp only [step, declaration]
    split
    case h_4 => exact .stay (fun _ => trivial) trivial
    all_goals exact stride_take (by assumption) (by simp) trivial
  | statement k =>
    simp only [step, statement]
    split
    case h_7 => exact .stay (fun _ => trivial) trivial
    all_goals exact stride_take (by assumption) (by simp) trivial
  | forInitializer k =>
    simp only [step, forInitializer]
    split
    case h_3 => exact .stay (fun _ => trivial) trivial
    all_goals exact stride_take (by assumption) (by simp) trivial
  | unary k =>
    simp only [step, unary]
    split
    case h_3 => exact .stay (fun _ => trivial) trivial
    all_goals exact stride_take (by assumption) (by simp) trivial
  | primary k =>
    simp only [step, primary]
    split
    case h_6 look => exact .take (ne_nil_of_look look (by simp)) trivial
    case h_8 => exact .stay (fun _ => trivial) trivial
    all_goals exact stride_take (by assumption) (by simp) trivial
  | giveExpression e k => exact stride_giveExpression id e k
  | giveStatement stmt k => exact stride_giveStatement id stmt k
  | giveFunction f k => cases k <;> exact .stay id trivial
  | giveBody body k => cases k <;> exact .stay id trivial
  | fail e k => exact stride_fail e k
  | parameter c name done k =>
    simp only [step]
    split
    · exact .of_note (stride_require _ _ _ fun _ => trivial)
    · exact stride_require _ _ _ fun _ => trivial
  | argument callee done k =>
    simp only [step]
    split <;> exact .stay (fun _ => trivial) trivial
  | parameterEnd c name done k | variableValue name k =>
    simp only [step]
    split
    · exact stride_take (by assumption) (by simp) trivial
    · exact stride_require _ _ _ fun _ => trivial
  | expression k => exact .stay id trivial
  | level l k => exact .stay (fun _ => fresh_operandTask l _) (goesOn_operandTask l _)
  | finished program => exact .done (.inl rfl)
  | className k | classOpen name k | callableName c k | callableOpen c name k
  | callableBody c name params k | variableName k | forOpen k | ifOpen k | whileOpen k
  | property object k => exact stride_require _ _ _ fun _ => trivial
  | parameters c name k | arguments callee k => exact stride_branch _ (fun _ => trivial) id trivial
  | forTest initializer k | forStep initializer test k | returnValue keyword k =>
    exact stride_branch _ (fun _ => trivial) (fun _ => trivial) trivial

/-! ## Along the tokens -/

theorem exists_finished_of_ended (ended : s.ended = true) :
    ∃ program, s.task = .finished program := by
  unfold State.ended at ended
  split at ended
  · exact ⟨_, by assumption⟩
  · cases ended

theorem skipAfter_suffix (t : Token) (ts : List Token) : skipAfter t ts <:+ ts := by
  induction ts generalizing t with
  | nil => exact List.suffix_rfl
  | cons u ts ih =>
    rw [skipAfter]
    split
    · exact List.suffix_rfl
    · exact (ih u).trans (List.suffix_cons u ts)

theorem synchronize_suffix (ts : List Token) : synchronize ts <:+ ts := by
  cases ts with
  | nil => exact List.suffix_rfl
  | cons t ts => exact (skipAfter_suffix t ts).trans (List.suffix_cons t ts)

namespace Stride

variable {t : State} (h : Stride s t)

include h

theorem eof : t.eof = s.eof := by cases h <;> rfl

theorem suffix : t.rest <:+ s.rest := by
  cases h with
  | stay | done => exact List.suffix_rfl
  | take => exact List.tail_suffix _
  | skip => exact synchronize_suffix _

/-- At the first token of a declaration the parse stays there, or takes the token. -/
theorem fresh_or (fresh : s.task.Fresh) (more : s.rest ≠ []) :
    t.task.Fresh ∧ t.rest = s.rest ∨ t.rest.length < s.rest.length := by
  cases h with
  | stay keeps => exact .inl ⟨keeps fresh, rfl⟩
  | take more =>
    right
    have some := List.length_pos_iff.2 more
    rw [List.length_tail]
    omega
  | skip => exact .inr (length_synchronize_lt more)
  | done done =>
    rcases done with ended | ⟨none, -⟩
    · obtain ⟨program, finished⟩ := exists_finished_of_ended ended
      rw [finished] at fresh
      exact fresh.elim
    · exact absurd none more

theorem goesOn (more : ¬ s.Done) : t.task.GoesOn := by
  cases h with
  | stay _ goes | take _ goes | skip goes => exact goes
  | done done => exact absurd done more

end Stride

theorem ended_step_of_done (done : s.Done) : s.step.ended = true := by
  rcases done with ended | ⟨none, done, task⟩
  · rw [step_of_ended ended]
    exact ended
  · obtain ⟨current, rest, eof, n, errors⟩ := s
    obtain rfl : rest = [] := none
    obtain rfl : current = _ := task
    rfl

theorem not_ended_of_goesOn (goes : s.task.GoesOn) : ¬ s.ended = true := by
  intro ended
  obtain ⟨program, finished⟩ := exists_finished_of_ended ended
  rw [finished] at goes
  exact goes

namespace Leads

variable {t : State} (h : Leads s t)

include h

theorem eof : t.eof = s.eof := by
  induction h with
  | refl => rfl
  | step _ ih => rw [ih, (stride_step _).eof]

theorem suffix : t.rest <:+ s.rest := by
  induction h with
  | refl => exact List.suffix_rfl
  | step _ ih => exact ih.trans (stride_step _).suffix

/-- The parse gets away from the first token of a declaration only behind it. -/
theorem shorter (fresh : s.task.Fresh) (more : s.rest ≠ []) (away : ¬ t.task.Fresh) :
    t.rest.length < s.rest.length := by
  induction h with
  | refl => exact absurd fresh away
  | @step s t behind ih =>
    rcases (stride_step s).fresh_or fresh more with ⟨fresh, same⟩ | shorter
    · rw [← same]
      exact ih fresh (same ▸ more) away
    · exact Nat.lt_of_le_of_lt behind.suffix.length_le shorter

/-- A declaration is looked for only where a list waits for it. -/
theorem isList {k : Pending .statement} (task : t.task = .declaration k)
    (start : ∀ k', s.task = .declaration k' → k'.IsList) : k.IsList := by
  induction h with
  | refl => exact start k task
  | @step s t _ ih =>
    refine ih task fun k' task' => ?_
    by_cases done : s.Done
    · have ended := ended_step_of_done done
      simp only [State.ended, task'] at ended
      cases ended
    · have goes := (stride_step s).goesOn done
      rw [task'] at goes
      exact goes

end Leads

/-- At a place with nothing behind it a parse goes on as it does alone: to the next point where the
program's list goes on, and to later ones unless the place is between braces. -/
theorem exists_leads_list {w : Place} (tail : w.tail = []) (stops : List Token → Prop)
    (goes : ∀ ts, ¬ stops ts → ts ≠ [] ∧ w.outer = none) {s : State} (eof : w.eof = s.eof)
    (unfinished : ¬ s.ended = true) : ∃ done ts n errors, stops ts ∧
      Leads s ⟨.program done, ts, w.eof, n, errors⟩ ∧
      Leads (s.within w) ⟨w.task done, ts, w.eof, n, errors ++ w.errors⟩ := by
  induction s using run.induct with
  | case1 s ended => exact absurd ended unfinished
  | case2 s _ ih =>
    by_cases list : ∃ done, s.task = .program done ∧ stops s.rest
    · obtain ⟨done, task, stop⟩ := list
      obtain ⟨current, rest, _, n, errors⟩ := s
      obtain rfl : current = _ := task
      obtain rfl : w.eof = _ := eof
      refine ⟨done, rest, n, errors, stop, .refl _, .of_eq ?_⟩
      rw [within, tail, List.append_nil]
      rfl
    · have going : ∀ done, s.task = .program done → s.rest ≠ [] ∧ w.outer = none := by
        intro done task
        exact goes s.rest fun stop => list ⟨done, task, stop⟩
      have more : ¬ s.Done := by
        rintro (ended | ⟨none, done, task⟩)
        · exact unfinished ended
        · exact (going done task).1 none
      have stride := stride_step s
      obtain ⟨done, ts, n, errors, stop, alone, there⟩ :=
        ih (eof.trans stride.eof.symm) (not_ended_of_goesOn (stride.goesOn more))
      have same : (s.within w).step = s.step.within w := by
        refine step_within (Place.fits tail eof) fun done task => ?_
        obtain ⟨more, outer⟩ := going done task
        exact ⟨more, fun _ => outer⟩
      exact ⟨done, ts, n, errors, stop, .step alone, .next same there⟩

/-! ## Declarations -/

/-- Where a list of declarations waits is a place. -/
theorem exists_place {k : Pending .statement} (list : k.IsList) (eof : Token)
    (errors : List StaticError) : ∃ w : Place, w.tail = [] ∧ w.eof = eof ∧ w.errors = errors ∧
      w.pending [] = k ∧ ∀ more, k.Resumes (w.task more) := by
  cases k with
  | program done => exact ⟨⟨none, done, [], eof, errors⟩, rfl, rfl, rfl, rfl, fun more => ⟨more, rfl⟩⟩
  | declarations done k =>
    exact ⟨⟨some k, done, [], eof, errors⟩, rfl, rfl, rfl, rfl, fun more => ⟨more, rfl⟩⟩
  | thenBranch | elseBranch | whileBody | forInitializer | forBody => exact list.elim

/-- Whatever becomes of a declaration, the list that it is looked for goes on. -/
theorem exists_leads_resumes {k : Pending .statement} (list : k.IsList)
    (task : s.task = .declaration k) : ∃ t, Leads s t ∧ k.Resumes t.task := by
  obtain ⟨w, tail, eof, errors, waits, resumes⟩ := exists_place list s.eof s.errors
  -- the same declaration, alone
  let alone : State := ⟨.declaration (.program []), s.rest, s.eof, s.nextId, []⟩
  have placed : alone.within w = s := by
    rw [within, tail, List.append_nil, eof, errors]
    show State.mk (.declaration (w.pending [])) .. = s
    rw [waits, ← task]
    rfl
  have unfinished : ¬ alone.ended = true := by
    intro ended
    cases ended
  have ends : w.eof = alone.eof := eof
  obtain ⟨done, ts, m, noted, -, -, there⟩ :=
    exists_leads_list tail (fun _ => True) (fun _ none => absurd trivial none) ends unfinished
  rw [placed] at there
  exact ⟨_, there, resumes done⟩

theorem not_fresh_of_resumes {k : Pending .statement} {task : Task} (resumes : k.Resumes task) :
    ¬ task.Fresh := by
  cases k with
  | program | declarations =>
    obtain ⟨more, rfl⟩ := resumes
    exact id
  | thenBranch | elseBranch | whileBody | forInitializer | forBody => exact resumes.elim

/-! ## Positions -/

/-- The state is at the position of the tokens: its next token stands there, what it has not taken are
the tokens from there up to the first end of source, and the position is not behind that. -/
structure At (tokens : List Token) (position : Nat) (s : State) : Prop where
  next : tokens[position]? = some s.next
  rest : (tokens.drop position).takeWhile (·.kind != .eof) = s.rest
  le : position ≤ tokens.findIdx (·.kind == .eof)

end State

theorem exists_first_eof {tokens : List Token} {t : Token} (mem : t ∈ tokens) (kind : t.kind = .eof) :
    ∃ front eof behind, tokens = front ++ eof :: behind ∧ eof.kind = .eof ∧
      ∀ u ∈ front, u.kind ≠ .eof := by
  obtain ⟨eof, found⟩ : ∃ eof, tokens.find? (·.kind == .eof) = some eof := by
    rw [← Option.isSome_iff_exists, List.find?_isSome]
    exact ⟨t, mem, by simp [kind]⟩
  obtain ⟨kind, front, behind, split, before⟩ := List.find?_eq_some_iff_append.1 found
  refine ⟨front, eof, behind, split, beq_iff_eq.1 kind, fun u hu => ?_⟩
  simpa using before u hu

/-- Of the closed tokens a parse starts with those up to the first end of source. -/
theorem exists_closed (n : Nat) (tokens : List Token) : ∃ behind,
    closed tokens = (State.start n tokens).rest ++ (State.start n tokens).eof :: behind ∧
      (State.start n tokens).eof.kind = .eof := by
  by_cases ends : ∃ t ∈ tokens, t.kind = .eof
  · obtain ⟨t, mem, kind⟩ := ends
    obtain ⟨front, eof, behind, rfl, kind, before⟩ := exists_first_eof mem kind
    rw [Grammar.start_append before kind]
    unfold closed
    split
    · exact ⟨behind, rfl, kind⟩
    · exact ⟨_, List.append_assoc .., kind⟩
  · have none : ∀ t ∈ tokens, t.kind ≠ .eof := fun t mem kind => ends ⟨t, mem, kind⟩
    have last : tokens.getLast?.map (·.kind) ≠ some .eof := by
      intro last
      obtain ⟨t, found, kind⟩ := Option.map_eq_some_iff.1 last
      exact none t (List.mem_of_getLast? found) kind
    have taken : tokens.takeWhile (·.kind != .eof) = tokens := by
      rw [List.takeWhile_eq_self_iff]
      exact fun t mem => bne_iff_ne.2 (none t mem)
    have found : tokens.find? (·.kind == .eof) = .none := List.find?_eq_none.2 (by simpa using none)
    refine ⟨[], ?_, ?_⟩
    · rw [closed, if_neg last]
      simp only [State.start, taken, found, Option.getD_none]
    · simp only [State.start, found, Option.getD_none]
      rfl

namespace State

/-- At all times a parse is at a position of its tokens. -/
theorem Leads.exists_at {n : Nat} {tokens : List Token} {s : State}
    (h : Leads (start n tokens) s) : ∃ position, At (closed tokens) position s := by
  obtain ⟨behind, split, kind⟩ := exists_closed n tokens
  obtain ⟨taken, passed⟩ := h.suffix
  have before : ∀ t ∈ taken ++ s.rest, (t.kind != .eof) = true := by
    intro t mem
    rw [passed] at mem
    exact List.all_eq_true.1 List.all_takeWhile t mem
  rw [← h.eof] at split kind
  rw [← passed, List.append_assoc] at split
  refine ⟨taken.length, ?_, ?_, ?_⟩
  · rw [split, List.getElem?_append_right (Nat.le_refl _), Nat.sub_self]
    unfold State.next
    cases s.rest <;> rfl
  · have left : ∀ t ∈ s.rest, (t.kind != .eof) = true :=
      fun t mem => before t (List.mem_append_right _ mem)
    rw [split, List.drop_left, List.takeWhile_append_of_pos left]
    simp [kind]
  · have none : taken.findIdx (·.kind == .eof) = taken.length := by
      rw [List.findIdx_eq_length]
      intro t mem
      simpa using before t (List.mem_append_left _ mem)
    rw [split, List.findIdx_append, if_neg (by omega)]
    omega

/-- A parse comes to its end, in no more steps than its measure says. -/
theorem exists_steps (s : State) : ∃ k ≤ s.measure, step^[k] s = s.run ∧ s.run.ended = true := by
  induction s using run.induct with
  | case1 s ended =>
    refine ⟨0, Nat.zero_le _, ?_, ?_⟩
    · rw [run, if_pos ended]
      rfl
    · rwa [run, if_pos ended]
  | case2 s unfinished ih =>
    obtain ⟨k, few, steps, ended⟩ := ih
    have less := measure_step_lt_of_not_ended unfinished
    refine ⟨k + 1, by omega, ?_, ?_⟩
    · rw [Function.iterate_succ_apply, steps, ← run_step]
    · rwa [run_step]

theorem measure_start_le (n : Nat) (tokens : List Token) :
    (start n tokens).measure ≤ 40 * tokens.length + 24 := by
  have shorter : (start n tokens).rest.length ≤ tokens.length :=
    (List.takeWhile_prefix _).length_le
  have list := loopWeight_le (start n tokens).rest.isEmpty
  unfold measure
  show 40 * _ + loopWeight _ ≤ _
  omega

end State

/-- A parse does not start with the tokens behind an end of source. -/
theorem start_behind_eof (n : Nat) (tokens : List Token) {eof : Token} (kind : eof.kind = .eof)
    (behind : List Token) :
    State.start n (tokens ++ eof :: behind) = State.start n (tokens ++ [eof]) := by
  by_cases ends : ∃ t ∈ tokens, t.kind = .eof
  · obtain ⟨t, mem, kind'⟩ := ends
    obtain ⟨front, eof', behind', rfl, kind', before⟩ := exists_first_eof mem kind'
    rw [List.append_assoc, List.append_assoc, List.cons_append, List.cons_append,
      Grammar.start_append before kind', Grammar.start_append before kind']
  · have none : ∀ t ∈ tokens, t.kind ≠ .eof := fun t mem kind => ends ⟨t, mem, kind⟩
    rw [Grammar.start_append none kind, Grammar.start_append none kind]

end Lox.Parse
