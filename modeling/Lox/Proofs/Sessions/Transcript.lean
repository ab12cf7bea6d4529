/-
Sessions seen from outside. Of texts that are run one after another nothing is seen but what each has
printed within the steps that it is given, what it ends with, and what is looked at in the session
behind it (`Session.shown`). Sessions that a run keeps in step show the same (`shown_eq`).

Evaluations that are the same up to ids and tables have the same outcome and the same sink.
-/
import Lox.Proofs.Sessions.Split

namespace Lox

/-! ## Evaluations with other ids -/

namespace Eval

theorem Outcome.recode_renumbered (ids : Nat → Nat) (o : Outcome) :
    o.recode (.renumbered ids) = o := by
  cases o with
  | fault e => cases e <;> rfl
  | _ => rfl

theorem State.outcome?_recode_renumbered (ids : Nat → Nat) (T : Distances) (e : State) :
    (e.recode (.renumbered ids) T).outcome? = e.outcome? := by
  obtain ⟨control, it⟩ := e
  cases control with
  | ended o => exact congrArg some (o.recode_renumbered ids)
  | _ => rfl

/-- Errors and answers do not show ids. -/
theorem State.outcome?_eq {ids ids' : Nat → Nat} {T : Distances} {e e' : State}
    (same : e.recode (.renumbered ids) T = e'.recode (.renumbered ids') T) :
    e.outcome? = e'.outcome? := by
  rw [← outcome?_recode_renumbered ids T e, same, outcome?_recode_renumbered]

end Eval

/-- Ids do not show in the sink. -/
theorem Interpreter.sink_eq {ids ids' : Nat → Nat} {T T' : Distances} {it it' : Interpreter}
    (same : it.recode (.renumbered ids) T = it'.recode (.renumbered ids') T') :
    it.sink = it'.sink := by
  have sinks := congrArg Interpreter.sink same
  exact sinks

/-- What a program ends with is a matter of its outcome and of the sink. -/
theorem Interpreter.conclude_congr {it it' : Interpreter} (same : it.sink = it'.sink)
    (o : Eval.Outcome) : it.conclude o = it'.conclude o := by
  unfold conclude
  rw [same]

namespace Session

/-! ## What is seen of a session -/

/-- A way to run a text, if it ends in a number of steps. -/
abbrev Runner := Session → Nat → String → Option (Except RunError Unit × Session)

/-- What has been printed when a text has run for `fuel` steps, or to its end if that is sooner. -/
def printed (s : Session) (fuel : Nat) (source : String) : Sink :=
  match s.check source with
  | (.error _, s) => s.interpreter.sink
  | (.ok p, s) => ((s.launch p).run fuel).it.sink

/-- What is seen of a run: what it has printed and, if it has ended, its result and what is looked at
in the session behind it. -/
structure Shown (α : Type) where
  printed : Sink
  ended : Option (Except RunError Unit × α)

/-- What is seen of texts that are run one after another, each for a number of steps, up to the first
that does not end. -/
def shown {α : Type} (run : Runner) (look : Session → α) (s : Session) :
    List (Nat × String) → List (Shown α)
  | [] => []
  | (fuel, source) :: texts =>
    ⟨s.printed fuel source, (run s fuel source).map fun (r, t) => (r, look t)⟩ ::
      match run s fuel source with
      | some (_, t) => t.shown run look texts
      | none => []

/-- Sessions that are kept in step show the same. -/
theorem shown_eq {α : Type} {run run' : Runner} {look : Session → α}
    {R : Session → Session → Prop}
    (step : ∀ {s s' : Session}, R s s' → ∀ fuel source,
      s.printed fuel source = s'.printed fuel source ∧
        Option.Rel (fun x x' => x.1 = x'.1 ∧ look x.2 = look x'.2 ∧ R x.2 x'.2)
          (run s fuel source) (run' s' fuel source))
    {s s' : Session} (related : R s s') (texts : List (Nat × String)) :
    s.shown run look texts = s'.shown run' look texts := by
  -- text by text; what relates the sessions holds again behind each
  induction texts generalizing s s' with
  | nil => rfl
  | cons text texts ih =>
    obtain ⟨fuel, source⟩ := text
    obtain ⟨printed, ended⟩ := step related fuel source
    simp only [shown, printed]
    generalize run s fuel source = x at *
    generalize run' s' fuel source = x' at *
    cases ended with
    | none => rfl
    | some same =>
      obtain ⟨result, looks, behind⟩ := same
      simp only [Option.map_some, result, looks, ih behind]

theorem printed_of_error {s t : Session} {source : String} {errors : List StaticError}
    (h : s.check source = (.error errors, t)) (fuel : Nat) :
    s.printed fuel source = t.interpreter.sink := by
  simp only [printed, h]

theorem printed_of_ok {s t : Session} {source : String} {p : Program}
    (h : s.check source = (.ok p, t)) (fuel : Nat) :
    s.printed fuel source = ((t.launch p).run fuel).it.sink := by
  simp only [printed, h]

theorem run_of_error {s t : Session} {source : String} {errors : List StaticError}
    (h : s.check source = (.error errors, t)) (fuel : Nat) :
    s.run fuel source = some (.error (.rejected errors), t) := by
  simp only [run, h]

theorem run_of_ok {s t : Session} {source : String} {p : Program}
    (h : s.check source = (.ok p, t)) (fuel : Nat) : s.run fuel source =
      ((t.launch p).run fuel).outcome?.map fun o => t.settle p o ((t.launch p).run fuel).it := by
  simp only [run, h]

/-- No native of a session looks at the heap. -/
theorem Reaches.blind {maxDepth : Nat} {sink : Sink} {clock : Clock} {past : List Program}
    {s : Session} (reached : (Session.start (.start maxDepth sink clock)).Reaches past s) :
    ∀ n ∈ s.interpreter.natives, n.Blind := by
  rw [reached.natives]
  intro n hn
  obtain rfl := Array.mem_singleton.1 hn
  exact blind_clock

end Session

end Lox
