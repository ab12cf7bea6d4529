/-
One step keeps frames and scopes in step, whatever rule it goes by (`step_fits`), and so does a whole
evaluation (`run_fits`). Only blocks and calls make a frame, and so name what it is for.
-/
import Lox.Proofs.Eval.Steps
import Lox.Proofs.Lockstep.Invariant

namespace Lox.Eval

variable {log : List Visit} {names : List (List String)} {it : Interpreter} {π : Site}

/-! ## Bindings -/

/-- Binding a name that is declared at the place keeps everything fit, and makes the name ready. -/
theorem fits_define {k : Cont .flow} (heap : it.heap.Fits log names it.globals)
    (a : π.Matches names it.globals it.heap it.frame) {name : String} (hd : π.Declares name)
    (v : Value)
    (fits : k.Fits log names it.globals it.heap (π.define name) it.frame) :
    State.Fits log names ⟨.finish .normal k, it.define it.frame name v⟩ := by
  have grown : it.heap.Extends (it.heap.define it.frame name v) := .define ..
  exact ⟨heap.define (fun D hf hD => a.agrees.mem_names hd hf hD) v, π.define name,
    a.define (heap.lt a.agrees) name v,
    fits.mono (List.prefix_refl _) grown (.define (Nat.le_refl _) name v)⟩

/-- Binding a name anew keeps everything fit. -/
theorem fits_rebind {α : Answer} {k : Cont α} (heap : it.heap.Fits log names it.globals)
    (a : π.Matches names it.globals it.heap it.frame) {f : FrameRef} {name : String}
    (hb : (it.heap.get? f name).isSome) (v : Value)
    (fits : k.Fits log names it.globals it.heap π it.frame) :
    (it.heap.define f name v).Fits log names it.globals ∧
      π.Matches names it.globals (it.heap.define f name v) it.frame ∧
        k.Fits log names it.globals (it.heap.define f name v) π it.frame := by
  have grown : it.heap.Extends (it.heap.define f name v) := .define ..
  exact ⟨heap.define (fun D hf hD => heap.bound f D name hf hD hb) v,
    a.mono (List.prefix_refl _) grown (.rebind hb v),
    fits.mono (List.prefix_refl _) grown (.rebind hb v)⟩

theorem isSome_of_owner? {h : Heap} {f owner : FrameRef} {name : String}
    (ho : h.owner? f name = some owner) : (h.get? owner name).isSome := by
  fun_induction Heap.owner? h f name with
  | case1 f hb =>
    cases ho
    exact hb
  | case2 f hb p hp ih => exact ih ho
  | case3 f hb hp => cases ho

/-- A reference means a frame that binds its name. -/
theorem isSome_of_referred? {id : Nat} {name : String} {f : FrameRef}
    (hf : it.referred? id name = some f) : (it.heap.get? f name).isSome := by
  -- by the table if it has the id, else by a search from the top level
  unfold Interpreter.referred? at hf
  split at hf
  · unfold Heap.ownerAt? at hf
    split at hf
    · split at hf
      · cases hf
        assumption
      · cases hf
    · cases hf
  · exact isSome_of_owner? hf

/-! ## Declarations and blocks -/

theorem fits_declareFunction {decl : Function} {k : Cont .flow}
    (heap : it.heap.Fits log names it.globals)
    (a : π.Matches names it.globals it.heap it.frame)
    (placed : (Stmt.function decl).Placed log π)
    (fits : k.Fits log names it.globals it.heap (π.introduce [decl.name.lexeme]) it.frame) :
    (declareFunction it decl k).Fits log names := by
  have hd : π.Declares decl.name.lexeme := placed.declares _ (List.mem_singleton_self _)
  let made := (it.heap.newFunction ⟨decl, it.frame⟩).2
  have grown : it.heap.Extends (made.define it.frame decl.name.lexeme
      (it.heap.newFunction ⟨decl, it.frame⟩).1) := .newFunction ..
  have same : it.heap.frames = made.frames := rfl
  have a' : π.Matches names it.globals made it.frame :=
    a.mono (List.prefix_refl _) (.of_frames same) (.of_frames same)
  exact ⟨heap.newFunction a.agrees hd placed.function _, π.introduce [decl.name.lexeme],
    a'.introduce (heap.lt a.agrees) _ _,
    fits.mono (List.prefix_refl _) grown (.newFunction _ (Nat.le_refl _) _ _)⟩

/-- Where its class has been made, the name is bound in the frame that the evaluation is in. -/
theorem withClass_owner? (older : it.frame.index < it.heap.frames.size) (name : String) :
    (withClass it name).heap.owner? it.frame name = some it.frame := by
  have same : (it.define it.frame name .nil).heap.frames = (withClass it name).heap.frames := rfl
  refine Heap.owner?_self ?_
  rw [← Heap.get?_congr same]
  exact Heap.isSome_get?_define older _ _

theorem fits_class {name : Token} {methods : List Function} {k : Cont .flow}
    (heap : it.heap.Fits log names it.globals)
    (a : π.Matches names it.globals it.heap it.frame)
    (placed : (Stmt.class name methods).Placed log π)
    (fits : k.Fits log names it.globals it.heap (π.introduce [name.lexeme]) it.frame) :
    State.Fits log names ⟨.finish .normal k,
      (withClass it name.lexeme).define it.frame name.lexeme (newClass it name.lexeme)⟩ := by
  have hd : π.Declares name.lexeme := placed.declares _ (List.mem_singleton_self _)
  -- the class is made on the heap where its name is bound already
  let bound := it.heap.define it.frame name.lexeme .nil
  let made := (withClass it name.lexeme).heap
  have same : bound.frames = made.frames := rfl
  have heap' : made.Fits log names it.globals :=
    (heap.define (fun D hf hD => a.agrees.mem_names hd hf hD) .nil).of_frames rfl rfl
  have a' : (π.introduce [name.lexeme]).Matches names it.globals made it.frame :=
    (a.introduce (heap.lt a.agrees) name.lexeme .nil).mono (List.prefix_refl _) (.of_frames same)
      (.of_frames same)
  have grown : it.heap.Extends made := .trans (.define it.heap _ _ _) (.of_frames same)
  have quiet : it.heap.Quiet it.frame.index made :=
    .trans (.define (Nat.le_refl _) name.lexeme .nil) (.of_frames same)
  have there : (made.get? it.frame name.lexeme).isSome :=
    isSome_of_owner? (withClass_owner? (heap.lt a.agrees) name.lexeme)
  obtain ⟨heap', a', fits'⟩ :=
    @fits_rebind log names (withClass it name.lexeme) _ _ k heap' a' _ _ there
      (newClass it name.lexeme) (fits.mono (List.prefix_refl _) grown quiet)
  exact ⟨heap', _, a', fits'⟩

theorem fits_block {body : List Stmt} {k : Cont .flow} (heap : it.heap.Fits log names it.globals)
    (a : π.Matches names it.globals it.heap it.frame) (placed : (Stmt.block body).Placed log π)
    (fits : k.Fits log names it.globals it.heap π it.frame) :
    State.Fits log (names ++ [body.flatMap Stmt.declares])
      ⟨.executeAll body (.blockEnd it.frame k), it.enterNew it.frame .empty⟩ := by
  have unbound : ∀ x, ((Bindings.empty : Bindings Value).get? x).isSome →
      x ∈ body.flatMap Stmt.declares := fun x hx => by
    rw [Bindings.get?_empty] at hx
    cases hx
  have grown : it.heap.Extends (it.heap.newFrame (some it.frame) .empty).2 := .newFrame ..
  have older : it.frame.index < it.heap.frames.size := heap.lt a.agrees
  refine ⟨heap.newFrame unbound it.frame, π.block body, ?_, placed.block, older, π, rfl,
    a.mono (List.prefix_append ..) grown (.newFrame older _ _),
    fits.mono (List.prefix_append ..) grown (.newFrame (Nat.le_of_lt older) _ _)⟩
  refine heap.matches_newFrame a.agrees (fun x => ?_) π.inFunction
  simp

/-! ## Calls -/

/-- The frame of a call binds the parameters and nothing else. -/
theorem isSome_parameterBindings {params : List Token} {args : List Value}
    (h : args.length = params.length) (name : String) :
    ((parameterBindings params args).get? name).isSome ↔ name ∈ params.map (·.lexeme) := by
  have fold : ∀ b : Bindings Value,
      (((params.zip args).foldl (fun b pair => b.put pair.1.lexeme pair.2) b).get? name).isSome ↔
        name ∈ params.map (·.lexeme) ∨ (b.get? name).isSome := by
    -- a parameter binds its name, whatever was bound before
    induction params generalizing args with
    | nil => simp
    | cons param params ih =>
      obtain ⟨arg, args, rfl⟩ := List.exists_cons_of_length_eq_add_one h
      intro b
      rw [List.zip_cons_cons, List.foldl_cons, ih (by simpa using h), Bindings.isSome_get?_put,
        List.map_cons, List.mem_cons, or_left_comm, or_assoc]
  have none : ¬((Bindings.empty : Bindings Value).get? name).isSome := by
    rw [Bindings.get?_empty]
    decide
  exact (fold .empty).trans (or_iff_left none)

theorem fits_entered {c : Closure} {args : List Value} {k : Cont .value}
    (heap : it.heap.Fits log names it.globals)
    (a : π.Matches names it.globals it.heap it.frame)
    (fits : k.Fits log names it.globals it.heap π it.frame) (hc : c ∈ it.heap.functions)
    (arity : args.length = c.decl.params.length) :
    ∃ names', names <+: names' ∧
      State.Fits log names' ⟨.executeAll c.decl.body (.callEnd it.frame k), entered it c args⟩ := by
  obtain ⟨ρ, a', placed⟩ := heap.placed c hc
  let params := c.decl.params.map (·.lexeme)
  let D := params ++ c.decl.body.flatMap Stmt.declares
  have grown : it.heap.Extends
      (it.heap.newFrame (some c.frame) (parameterBindings c.decl.params args)).2 := .newFrame ..
  have declared : ∀ x, ((parameterBindings c.decl.params args).get? x).isSome → x ∈ D :=
    fun x hx => List.mem_append_left _ ((isSome_parameterBindings arity x).1 hx)
  -- what is ready at the start of the body are the parameters, which the call binds
  obtain ⟨S, hS, ready⟩ := exists_introduceAll .empty ρ.scopes params
  have bound : ∀ x, S.get? x = some true ↔
      ((parameterBindings c.decl.params args).get? x).isSome := by
    intro x
    rw [ready, Bindings.get?_empty, isSome_parameterBindings arity, ite_eq_left_iff]
    simp [params]
  have inner : (ρ.function params c.decl.body).Matches (names ++ [D]) it.globals
      (it.heap.newFrame (some c.frame) (parameterBindings c.decl.params args)).2
      (it.heap.newFrame (some c.frame) (parameterBindings c.decl.params args)).1 := by
    have inner := @Heap.Fits.matches_newFrame _ _ _ _ _ heap D _ _ a' S bound true
    rwa [← hS] at inner
  have older : it.frame.index < it.heap.frames.size := heap.lt a.agrees
  exact ⟨names ++ [D], List.prefix_append .., heap.newFrame declared c.frame,
    ρ.function params c.decl.body, inner, placed.body, older, rfl, π,
    a.mono (List.prefix_append ..) grown (.newFrame older _ _),
    fits.mono (List.prefix_append ..) grown (.newFrame (Nat.le_of_lt older) _ _)⟩

theorem mem_of_function? {h : Heap} {f : FunctionRef} {c : Closure} (hf : h.function? f = some c) :
    c ∈ h.functions :=
  Array.mem_of_getElem? hf

/-! ## Steps and runs -/

/-- Outside of functions the walk would have rejected a `return`. -/
theorem inFunction_of_return {keyword : Token} {value : Option Expr}
    (placed : (Stmt.return keyword value).Placed log π) : π.inFunction = true := by
  cases hb : π.inFunction with
  | true => rfl
  | false => exact absurd (placed.returns hb) (by simp [Stmt.returns])

theorem Turn.fits {c c' : Control} (turn : Turn it c c')
    (fits : c.Fits log names it.globals it.heap it.frame) :
    c'.Fits log names it.globals it.heap it.frame := by
  cases turn with
  | literal | read | decided | noArgument | lastArgument | noStatement | loopEnd =>
    obtain ⟨π, a, -, kfits⟩ := fits
    exact ⟨π, a, kfits⟩
  | group | unary | get =>
    obtain ⟨π, a, placed, kfits⟩ := fits
    exact ⟨π, a, Expr.placed_iff.2 (Expr.placed_iff.1 placed), kfits⟩
  | binary | logical =>
    obtain ⟨π, a, placed, kfits⟩ := fits
    rw [Expr.placed_iff, Expr.references, List.forall_mem_append] at placed
    exact ⟨π, a, Expr.placed_iff.2 placed.1, Expr.placed_iff.2 placed.2, kfits⟩
  | call =>
    obtain ⟨π, a, placed, kfits⟩ := fits
    rw [Expr.placed_iff, Expr.references, List.forall_mem_append] at placed
    exact ⟨π, a, Expr.placed_iff.2 placed.1, Expr.allPlaced_iff.2 placed.2, kfits⟩
  | assign =>
    obtain ⟨π, a, placed, kfits⟩ := fits
    rw [Expr.placed_iff, Expr.references, List.forall_mem_append] at placed
    exact ⟨π, a, Expr.placed_iff.2 placed.1, placed.2 _ (List.mem_singleton_self _), kfits⟩
  | set =>
    obtain ⟨π, a, placed, kfits⟩ := fits
    rw [Expr.placed_iff, Expr.references, List.forall_mem_append] at placed
    exact ⟨π, a, Expr.placed_iff.2 placed.2, Expr.placed_iff.2 placed.1, kfits⟩
  | firstArgument | nextArgument =>
    obtain ⟨π, a, placed, kfits⟩ := fits
    rw [Expr.allPlaced_iff, Expr.referencesAll, List.forall_mem_append] at placed
    exact ⟨π, a, Expr.placed_iff.2 placed.1, Expr.allPlaced_iff.2 placed.2, kfits⟩
  | expression | print =>
    obtain ⟨π, a, placed, kfits⟩ := fits
    exact ⟨π, a, placed.visits, kfits⟩
  | initializer name e k =>
    -- the name is declared but not ready until the initializer is evaluated
    obtain ⟨π, a, placed, kfits⟩ := fits
    have hd : π.Declares name.lexeme := placed.declares _ (List.mem_singleton_self _)
    exact ⟨π.declare name.lexeme, a.declare _, placed.var, hd, kfits⟩
  | test condition thenBranch elseBranch k =>
    obtain ⟨π, a, placed, kfits⟩ := fits
    cases elseBranch with
    | none =>
      obtain ⟨hc, ht⟩ := placed.if_none
      exact ⟨π, a, hc, ht, (fun s hs => by cases hs), kfits⟩
    | some elseBranch =>
      obtain ⟨hc, ht, he⟩ := placed.if_some
      refine ⟨π, a, hc, ht, fun s hs => ?_, kfits⟩
      cases hs
      exact he
  | loop =>
    obtain ⟨π, a, placed, kfits⟩ := fits
    exact ⟨π, a, placed.while.1, placed.while, kfits⟩
  | returnValue =>
    obtain ⟨π, a, placed, kfits⟩ := fits
    exact ⟨π, a, placed.return, inFunction_of_return placed, kfits⟩
  | returnNil =>
    obtain ⟨π, a, placed, kfits⟩ := fits
    exact ⟨π, inFunction_of_return placed, kfits⟩
  | statement =>
    obtain ⟨π, a, placed, kfits⟩ := fits
    rw [List.flatMap_cons, Site.introduce_append] at kfits
    exact ⟨π, a, placed.1, placed.2, kfits⟩
  | returned =>
    obtain ⟨π, -, inside, kfits⟩ := fits
    exact ⟨π, inside, kfits⟩
  | thenBranch =>
    obtain ⟨π, a, hthen, -, kfits⟩ := fits
    exact ⟨π, a, hthen.2, by rwa [hthen.1]⟩
  | elseBranch =>
    obtain ⟨π, a, -, helse, kfits⟩ := fits
    have he := helse _ rfl
    exact ⟨π, a, he.2, by rwa [he.1]⟩
  | noBranch =>
    obtain ⟨π, a, -, -, kfits⟩ := fits
    exact ⟨π, a, kfits⟩
  | body =>
    obtain ⟨π, a, ⟨hc, hb⟩, kfits⟩ := fits
    refine ⟨π, a, hb.2, ?_⟩
    rw [hb.1]
    exact ⟨⟨hc, hb⟩, kfits⟩
  | again =>
    obtain ⟨π, a, kfits⟩ := fits
    exact ⟨π, a, kfits.1.1, kfits⟩
  | leaveSequence v ss k =>
    obtain ⟨π, inside, -, kfits⟩ := fits
    exact ⟨π.introduce (ss.flatMap Stmt.declares), inside, kfits⟩
  | leaveLoop =>
    obtain ⟨π, inside, -, kfits⟩ := fits
    exact ⟨π, inside, kfits⟩
  | yield e k k' yields =>
    obtain ⟨π, kfits⟩ := fits
    cases yields with
    | operand | rightOperand | getObject | setValue | discarded | printed => exact ⟨π, kfits⟩
    | initializer name k => exact ⟨π.define name.lexeme, kfits.2⟩
    | ifTest => exact ⟨π, kfits.2.2⟩
    | sequence rest k => exact ⟨π.introduce (rest.flatMap Stmt.declares), kfits.2⟩
    | _ => exact ⟨π, kfits.2⟩
  | valueEnd =>
    obtain ⟨π, -, kfits⟩ := fits
    exact kfits
  | flowEnd f =>
    cases f with
    | normal =>
      obtain ⟨π, -, kfits⟩ := fits
      exact kfits.1
    | returned v =>
      obtain ⟨π, inside, -, outside⟩ := fits
      rw [outside] at inside
      cases inside
  | faultOfValue =>
    obtain ⟨π, kfits⟩ := fits
    exact kfits
  | faultOfFlow =>
    obtain ⟨π, kfits⟩ := fits
    exact kfits.1
  | _ => exact fits

theorem Fail.fits {c : Control} {e : RuntimeError} {k : Cont .value} (fail : Fail it c e k)
    (fits : c.Fits log names it.globals it.heap it.frame) :
    ∃ π, k.Fits log names it.globals it.heap π it.frame := by
  cases fail with
  | unread | unwritten | noTarget =>
    obtain ⟨π, -, -, kfits⟩ := fits
    exact ⟨π, kfits⟩
  | _ =>
    obtain ⟨π, -, kfits⟩ := fits
    exact ⟨π, kfits⟩

/-- Only blocks and calls make a frame, and so name what it is for. -/
theorem Rule.fits {e e' : State} (rule : Rule e e') (fits : e.Fits log names) :
    ∃ names', names <+: names' ∧ e'.Fits log names' := by
  obtain ⟨heap, fits⟩ := fits
  cases rule with
  | turn turn => exact ⟨names, List.prefix_refl _, heap, turn.fits fits⟩
  | fail fail => exact ⟨names, List.prefix_refl _, heap, fail.fits fits⟩
  | varNil it name k =>
    obtain ⟨π, a, placed, kfits⟩ := fits
    have hd : π.Declares name.lexeme := placed.declares _ (List.mem_singleton_self _)
    exact ⟨names, List.prefix_refl _, fits_define heap (a.declare _) hd _ kfits⟩
  | var it name v k =>
    obtain ⟨π, a, hd, kfits⟩ := fits
    exact ⟨names, List.prefix_refl _, fits_define heap a hd v kfits⟩
  | function it decl k =>
    obtain ⟨π, a, placed, kfits⟩ := fits
    exact ⟨names, List.prefix_refl _, fits_declareFunction heap a placed kfits⟩
  | «class» it name methods f k found =>
    obtain ⟨π, a, placed, kfits⟩ := fits
    have owner := withClass_owner? (heap.lt a.agrees) name.lexeme
    obtain rfl : it.frame = f := Option.some.inj (owner.symm.trans found)
    exact ⟨names, List.prefix_refl _, fits_class heap a placed kfits⟩
  | lostClass it name methods k none =>
    obtain ⟨π, a, placed, kfits⟩ := fits
    rw [withClass_owner? (heap.lt a.agrees)] at none
    cases none
  | write it id name f v k found =>
    obtain ⟨π, a, -, kfits⟩ := fits
    obtain ⟨heap, a, kfits⟩ := fits_rebind heap a (isSome_of_referred? found) v kfits
    exact ⟨names, List.prefix_refl _, heap, π, a, kfits⟩
  | setField it i name v k =>
    obtain ⟨π, a, kfits⟩ := fits
    have grown : it.heap.Extends (it.heap.setField i name.lexeme v) := .of_frames rfl
    exact ⟨names, List.prefix_refl _, heap.of_frames rfl rfl, π,
      a.mono (List.prefix_refl _) grown (.of_frames rfl),
      Cont.Fits.mono (List.prefix_refl _) grown (.of_frames rfl) kfits⟩
  | instantiate it c paren k =>
    obtain ⟨π, a, kfits⟩ := fits
    have grown : it.heap.Extends (it.heap.newInstance c).2 := .of_frames rfl
    exact ⟨names, List.prefix_refl _, heap.of_frames rfl rfl, π,
      a.mono (List.prefix_refl _) grown (.of_frames rfl),
      Cont.Fits.mono (List.prefix_refl _) grown (.of_frames rfl) kfits⟩
  | block it body k =>
    obtain ⟨π, a, placed, kfits⟩ := fits
    exact ⟨_, List.prefix_append .., fits_block heap a placed kfits⟩
  | blockEnd it f frame k =>
    cases f with
    | normal =>
      obtain ⟨π, -, -, ρ, -, a, kfits⟩ := fits
      exact ⟨names, List.prefix_refl _, heap, ρ, a, kfits⟩
    | returned v =>
      -- a `return` is inside of a function, and stays there up to the end of the call
      obtain ⟨π, inside, -, ρ, same, -, kfits⟩ := fits
      exact ⟨names, List.prefix_refl _, heap, ρ, same.trans inside, kfits⟩
  | blockFault =>
    obtain ⟨π, -, ρ, -, -, kfits⟩ := fits
    exact ⟨names, List.prefix_refl _, heap, ρ, kfits⟩
  | call it f c paren args k found arity room =>
    obtain ⟨π, a, kfits⟩ := fits
    exact fits_entered heap a kfits (mem_of_function? found) arity
  | callEnd | callReturn =>
    obtain ⟨π, -, -, -, ρ, a, kfits⟩ := fits
    exact ⟨names, List.prefix_refl _, heap, ρ, a, kfits⟩
  | callFault =>
    obtain ⟨π, -, -, ρ, -, kfits⟩ := fits
    exact ⟨names, List.prefix_refl _, heap, ρ, kfits⟩
  | native | printed => exact ⟨names, List.prefix_refl _, heap, fits⟩
  | nativeFault | unprinted =>
    obtain ⟨π, -, kfits⟩ := fits
    exact ⟨names, List.prefix_refl _, heap, π, kfits⟩

/-- A step keeps frames and scopes in step; frames that it makes are made for further names. -/
theorem step_fits {e : State} (fits : e.Fits log names) :
    ∃ names', names <+: names' ∧ e.step.Fits log names' := (step_rule e).fits fits

theorem run_fits {e : State} (fits : e.Fits log names) (n : Nat) :
    ∃ names', names <+: names' ∧ (e.run n).Fits log names' := by
  refine run_invariant (P := fun e' => ∃ names', names <+: names' ∧ e'.Fits log names') ?_
    ⟨names, List.prefix_refl _, fits⟩ n
  rintro e' ⟨between, before, fits⟩
  obtain ⟨names', behind, fits⟩ := step_fits fits
  exact ⟨names', before.trans behind, fits⟩

end Lox.Eval
