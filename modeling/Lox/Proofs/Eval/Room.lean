/-
A sink that fills up. As long as what is printed fits, a run takes the same steps on a sink with
limited room as on one without a limit (`run_capped`). The first text that does not fit is cut, and
the run ends there, whatever it would have done behind (`exists_full`).

The main result is `full_sink_only_truncates`: a limited sink makes no difference to a program, or ends
it with its output cut off at the limit.
-/
import Mathlib.Data.Nat.Find
import Lox.Proofs.Eval.Hosted

namespace Lox

/-! ## Texts on a limited sink -/

theorem Sink.Continues.size_le {s s' : Sink} (h : s.Continues s') :
    s.written.size ≤ s'.written.size := by
  obtain ⟨more, h⟩ := h
  rw [h, ByteArray.size_append]
  exact Nat.le_add_right ..

/-- The first bytes of what is printed stay the same. -/
theorem Sink.Continues.extract {s s' : Sink} (h : s.Continues s') {n : Nat}
    (le : n ≤ s.written.size) : s'.written.extract 0 n = s.written.extract 0 n := by
  obtain ⟨more, h⟩ := h
  rw [h, ByteArray.extract_append]
  simp [le]

namespace Sink

/-- A sink with room for `n` bytes. -/
def limited (n : Nat) : Sink := ⟨.empty, some n, false⟩

/-- The sink with room for `n` bytes in all, those already printed included. -/
def capped (n : Nat) (s : Sink) : Sink := { s with room := some (n - s.written.size) }

variable {s : Sink} {n : Nat}

theorem print_of_free (free : s.room = none) (text : String) :
    s.print text = (.ok (), { s with written := s.written ++ text.toUTF8 }) := by
  unfold print
  rw [free]

/-- A text that fits is taken as on a sink without a limit. -/
theorem takesAs_capped (free : s.room = none) {text : String}
    (fits : (s.print text).2.written.size ≤ n) : TakesAs (capped n) s text := by
  rw [print_of_free free, ByteArray.size_append] at fits
  have room : text.toUTF8.size ≤ n - s.written.size := by omega
  unfold TakesAs
  rw [print_of_free free]
  simp only [print, capped, if_pos room, ByteArray.size_append, Nat.sub_sub]

/-- A text that does not fit is cut where the room ends. -/
theorem print_capped (free : s.room = none) (le : s.written.size ≤ n) {text : String}
    (longer : n < (s.print text).2.written.size) : (s.capped n).print text =
      (.error .sinkFull, ⟨(s.print text).2.written.extract 0 n, some 0, s.refusesFlush⟩) := by
  rw [print_of_free free, ByteArray.size_append] at longer
  have full : ¬text.toUTF8.size ≤ n - s.written.size := by omega
  have whole : s.written.extract 0 n = s.written := by
    have all := @ByteArray.extract_zero_max_size s.written n
    rwa [Nat.max_eq_left le] at all
  rw [print_of_free free]
  simp only [print, capped, if_neg full, ByteArray.extract_append, Nat.zero_sub, whole]

end Sink

/-- The interpreter with room for `n` bytes on its sink, those already printed included. -/
def Interpreter.capped (it : Interpreter) (n : Nat) : Interpreter :=
  { it with sink := it.sink.capped n }

namespace Eval

/-- The evaluation with room for `n` bytes on its sink, those already printed included. -/
def State.capped (e : State) (n : Nat) : State := ⟨e.control, e.it.capped n⟩

/-! ## Steps on a limited sink -/

section

variable {e : State} {n : Nat}

theorem room_step (free : e.it.sink.room = none) : e.step.it.sink.room = none := by
  cases printing : e.printing? with
  | none => rwa [sink_step_quiet printing]
  | some text =>
    rw [sink_step_print printing, Sink.print_of_free free]
    exact free

theorem room_run (free : e.it.sink.room = none) (m : Nat) : (e.run m).it.sink.room = none := by
  induction m with
  | zero => exact free
  | succ m ih =>
    rw [← step_run]
    exact room_step ih

/-- As long as what is printed fits, a step is the same step. -/
theorem step_capped (free : e.it.sink.room = none) (fits : e.step.it.sink.written.size ≤ n) :
    (e.capped n).step = e.step.capped n := by
  have same : (e.capped n).step = e.step.hosted e.it.maxDepth (Sink.capped n) := by
    apply step_hosted (Nat.le_refl _)
    · rintro paren ⟨k, f, c, args, refused⟩
      exact refused.reached
    · intro text printing
      rw [sink_step_print printing] at fits
      exact Sink.takesAs_capped free fits
  rw [same, ← (step_keeps e).maxDepth]
  rfl

/-- The step that prints more than fits raises an error, with the output cut off at the limit. -/
theorem step_capped_full (free : e.it.sink.room = none) (le : e.it.sink.written.size ≤ n)
    (longer : n < e.step.it.sink.written.size) : ∃ (k : Cont .flow) (it : Interpreter),
      (e.capped n).step = ⟨.raise (.output .sinkFull) k, it⟩ ∧
        it.sink.written = e.step.it.sink.written.extract 0 n := by
  cases printing : e.printing? with
  | none =>
    rw [sink_step_quiet printing] at longer
    omega
  | some text =>
    rw [sink_step_print printing] at longer ⊢
    have printing' : (e.capped n).printing? = some text := printing
    have cut : (e.capped n).it.sink.print text = _ := Sink.print_capped free le longer
    obtain ⟨k, step⟩ := exists_step_print printing'
    rw [cut] at step
    exact ⟨k, _, step, rfl⟩

/-- As long as what is printed fits, a run is the same run. -/
theorem run_capped (free : e.it.sink.room = none) {m : Nat}
    (fits : (e.run m).it.sink.written.size ≤ n) : (e.capped n).run m = (e.run m).capped n := by
  induction m with
  | zero => rfl
  | succ m ih =>
    have fewer := ih (Nat.le_trans (run_continues e (Nat.le_succ m)).size_le fits)
    rw [← step_run] at fits
    rw [← step_run, ← step_run, fewer, step_capped (room_run free m) fits]

/-- The first text that does not fit ends the run, with the output cut off at the limit. -/
theorem exists_full (free : e.it.sink.room = none) (le : e.it.sink.written.size ≤ n)
    (longer : ∃ m, n < (e.run m).it.sink.written.size) :
    ∃ it, (e.capped n).Ends (.fault (.output .sinkFull)) it ∧
      ∀ m, n < (e.run m).it.sink.written.size →
        it.sink.written = (e.run m).it.sink.written.extract 0 n := by
  -- up to the step that prints too much, the runs are the same
  obtain ⟨m, first, before⟩ : ∃ m, n < (e.run (m + 1)).it.sink.written.size ∧
      (e.run m).it.sink.written.size ≤ n := by
    cases found : Nat.find longer with
    | zero =>
      have none := Nat.find_spec longer
      rw [found] at none
      exact absurd le (Nat.not_le.2 none)
    | succ m =>
      have some := Nat.find_spec longer
      rw [found] at some
      exact ⟨m, some, Nat.le_of_not_lt (Nat.find_min longer (by omega))⟩
  have same := run_capped free before
  rw [← step_run] at first
  obtain ⟨k, it, stepped, cut⟩ := step_capped_full (room_run free m) before first
  obtain ⟨it', ends, -, sink⟩ := ends_raise it (.output .sinkFull) k
  refine ⟨it', ?_, fun m' longer' => ?_⟩
  · rw [← ends_run m, same, ← ends_step, stepped]
    exact ends
  · -- all that is printed too much begins with the same bytes
    rw [sink, cut, step_run]
    rw [step_run] at first
    rcases Nat.le_total (m + 1) m' with later | earlier
    · exact ((run_continues e later).extract (Nat.le_of_lt first)).symm
    · exact (run_continues e earlier).extract (Nat.le_of_lt longer')

end

end Eval

/-! ## Programs on a limited sink -/

namespace Interpreter

/-- The interpreter with another sink. -/
def printingTo (it : Interpreter) (sink : Sink) : Interpreter := { it with sink }

/-- What the program has printed after so many steps. -/
def output (it : Interpreter) (program : List Stmt) (steps : Nat) : ByteArray :=
  (Eval.State.run steps ⟨.executeAll program .flow, it⟩).it.sink.written

end Interpreter

/-- On a sink with room for `n` bytes a program ends as on a sink without a limit, if it prints no more
than that. If it prints more, it ends with an output error and with the first `n` bytes printed. -/
theorem full_sink_only_truncates (it : Interpreter) (program : List Stmt) (n : Nat) :
    let free := it.printingTo .unlimited
    let tight := it.printingTo (.limited n)
    ((∀ m, (free.output program m).size ≤ n) → ∀ fuel,
      tight.output program fuel = free.output program fuel ∧
        tight.interpret fuel program =
          (free.interpret fuel program).map fun (r, t) => (r, t.capped n)) ∧
    ((∃ m, n < (free.output program m).size) → ∃ fuel t,
      tight.interpret fuel program = some (.error (.output .sinkFull), t) ∧
        t.sink.written.size = n ∧ ∀ m, n < (free.output program m).size →
          t.sink.written = (free.output program m).extract 0 n) := by
  intro free tight
  let e : Eval.State := ⟨.executeAll program .flow, free⟩
  constructor
  · intro fits fuel
    have same : (e.capped n).run fuel = (e.run fuel).capped n := Eval.run_capped rfl (fits fuel)
    constructor
    · exact congrArg (·.it.sink.written) same
    · exact @Eval.interpret_rehosted free tight program fuel (·.capped n) (fun _ => rfl) same
  · intro longer
    obtain ⟨t, ends, cut⟩ := @Eval.exists_full e n rfl (Nat.zero_le n) longer
    obtain ⟨fuel, failed⟩ := Eval.interpret_of_ends_fault ends
    refine ⟨fuel, t, failed, ?_, cut⟩
    obtain ⟨m, hm⟩ := longer
    rw [cut m hm, ByteArray.size_extract]
    show min n ((e.run m).it.sink.written.size) - 0 = n
    have more : n < (e.run m).it.sink.written.size := hm
    omega

/-- With room for six bytes an endless loop is cut in its second line. A single line of four bytes fits
into four. -/
theorem full_sink_only_truncates_loop :
    let line : Stmt := .print (.literal .nil)
    let loop : Stmt := .while (.literal (.bool true)) line
    let it := Interpreter.start 0 .unlimited (.stopped 0)
    (∀ fuel, (it.printingTo (.limited 4)).interpret fuel [line] =
      ((it.printingTo .unlimited).interpret fuel [line]).map fun (r, t) => (r, t.capped 4)) ∧
    ∃ fuel t, (it.printingTo (.limited 6)).interpret fuel [loop] =
      some (.error (.output .sinkFull), t) ∧ t.sink.written = "nil\nni".toUTF8 := by
  intro line loop it
  constructor
  · have fits : ∀ m, ((it.printingTo .unlimited).output [line] m).size ≤ 4 := by
      intro m
      let e : Eval.State := ⟨.executeAll [line] .flow, it.printingTo .unlimited⟩
      have whole : (e.run 10).it.sink.written.size = 4 := by decide +kernel
      have later : e.run (10 + m) = e.run 10 := by
        rw [Eval.run_add]
        exact Eval.run_ended ..
      rw [← whole, ← later]
      exact (Eval.run_continues e (Nat.le_add_left m 10)).size_le
    exact fun fuel => ((full_sink_only_truncates it [line] 4).1 fits fuel).2
  · have longer : 6 < ((it.printingTo .unlimited).output [loop] 20).size := by decide +kernel
    obtain ⟨fuel, t, failed, -, cut⟩ := (full_sink_only_truncates it [loop] 6).2 ⟨20, longer⟩
    have first : ((it.printingTo .unlimited).output [loop] 20).extract 0 6 = "nil\nni".toUTF8 := by
      decide +kernel
    exact ⟨fuel, t, failed, (cut 20 longer).trans first⟩

end Lox
