/-
Reference ids over many parses. Parses that share one supply of ids, each starting to count where the
one before it ended, whether that was accepted or not, never give two references one id
(`programs_number_apart`).
-/
import Lox.Proofs.Grammar.Sound
import Lox.Proofs.Grammar.Trees

namespace Lox.Parse

/-- Parses one list of tokens after another, each with the ids that those before it left. -/
def programs : Nat → List (List Token) → List Parsed
  | _, [] => []
  | n, tokens :: others =>
    let parsed := program n tokens
    parsed :: programs parsed.nextId others

/-- The ids of all references in what a parse returns, none if it was rejected. -/
def Parsed.everyId (p : Parsed) : List Nat :=
  match p.program with
  | .ok statements => Stmt.everyIdAll statements
  | .error _ => []

/-- The references that a parse returns have different ids, drawn between its start and its end. -/
theorem fresh_program (n : Nat) (tokens : List Token) :
    FreshIds n (program n tokens).nextId (program n tokens).everyId := by
  unfold Parsed.everyId
  split
  case h_1 statements accepted =>
    obtain ⟨d, -, -, -, tree⟩ := Grammar.exists_derivation tokens n accepted
    have fresh := Grammar.fresh_everyId d n
    rwa [tree] at fresh
  case h_2 =>
    -- ids that were drawn for what is dropped are used up
    exact .none (State.grows_run (.start n tokens)).nextId

/-- Everything that the parses return has different ids, up to where the last of them ended. -/
theorem exists_fresh_programs (n : Nat) (sources : List (List Token)) :
    ∃ m, FreshIds n m ((programs n sources).flatMap Parsed.everyId) := by
  induction sources generalizing n with
  | nil => exact ⟨n, .none (Nat.le_refl n)⟩
  | cons tokens others ih =>
    obtain ⟨m, later⟩ := ih (program n tokens).nextId
    refine ⟨m, ?_⟩
    rw [programs, List.flatMap_cons]
    exact (fresh_program n tokens).append later

/-- Each of the parses is one of its own, counted from somewhere. -/
theorem exists_of_mem_programs {n : Nat} {sources : List (List Token)} {p : Parsed}
    (h : p ∈ programs n sources) : ∃ m, ∃ tokens ∈ sources, p = program m tokens := by
  induction sources generalizing n with
  | nil => cases h
  | cons tokens others ih =>
    rcases List.mem_cons.1 h with rfl | h
    · exact ⟨n, tokens, List.mem_cons_self, rfl⟩
    · obtain ⟨m, tokens', later, rfl⟩ := ih h
      exact ⟨m, tokens', List.mem_cons_of_mem _ later, rfl⟩

/-- Over all parses that share one supply of ids, no two references in what they return have the same
id, and each id is below the supply's next one behind the parse that drew it. -/
theorem programs_number_apart (n : Nat) (sources : List (List Token)) :
    ((programs n sources).flatMap Parsed.everyId).Nodup ∧
      ∀ p ∈ programs n sources, ∀ id ∈ p.everyId, id < p.nextId := by
  constructor
  · obtain ⟨m, fresh⟩ := exists_fresh_programs n sources
    exact fresh.nodup
  · intro p mem id drawn
    obtain ⟨m, tokens, -, rfl⟩ := exists_of_mem_programs mem
    exact ((fresh_program m tokens).bounds id drawn).2

/-- A loop with its step behind the body, a text that is rejected, and a name in the next text. -/
example :
    let name (lexeme : String) : Token := ⟨.identifier, lexeme, 1⟩
    let mark (kind : Kind) : Token := ⟨kind, "", 1⟩
    let rejected := [name "a", name "b"]
    let loop := [mark .for, mark .leftParen, mark .semicolon, mark .semicolon, name "i",
      mark .rightParen, name "f", mark .semicolon]
    (programs 0 [loop, rejected, [name "a", mark .semicolon]]).map
      (fun p => (p.everyId, p.nextId)) = [([1, 0], 2), ([], 3), ([3], 4)] := by
  cbv

end Lox.Parse
