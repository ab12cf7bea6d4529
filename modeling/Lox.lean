import Lox.Command.Outcome
import Lox.Main
import Lox.Proofs.Grammar.Derivation
import Lox.Proofs.Grammar.Complete
import Lox.Proofs.Grammar.Clean
import Lox.Proofs.Grammar.Sound
import Lox.Proofs.Syntax.Map
import Lox.Proofs.Grammar.Unparse
import Lox.Proofs.Scoping.Visits
import Lox.Proofs.Scoping.Accepted
import Lox.Proofs.Grammar.Trees
import Lox.Proofs.Heap.Frames
import Lox.Proofs.Lockstep.Invariant
import Lox.Proofs.Lockstep.Step
import Lox.Proofs.Lockstep.Session
import Lox.Proofs.Syntax.Recode
import Lox.Proofs.Eval.Recode
import Lox.Proofs.Eval.Sequence
import Lox.Proofs.Token.Join
import Lox.Proofs.Scoping.Mapped
import Lox.Proofs.Scoping.Outline
import Lox.Proofs.Scoping.Walk
import Lox.Proofs.Scoping.Lexical
import Lox.Proofs.Scoping.Violations
import Lox.Proofs.Lockstep.Assigned
import Lox.Proofs.Grammar.Shift
import Lox.Proofs.Sessions.Shift
import Lox.Proofs.Sessions.Alike
import Lox.Proofs.Sessions.Split
import Lox.Proofs.Eval.Home
import Lox.Proofs.Sessions.Rest
import Lox.Proofs.Sessions.Transcript
import Lox.Proofs.Sessions.Rejected
import Lox.Proofs.Eval.Calls
import Lox.Proofs.Eval.Limit
import Lox.Proofs.Sessions.Kept
import Lox.Proofs.Grammar.Within
import Lox.Proofs.Grammar.Chunks
import Lox.Proofs.Eval.Room
import Lox.Proofs.Token.Lexemes
import Lox.Proofs.Token.Longest
import Lox.Proofs.Token.Cursor
import Lox.Proofs.Grammar.Progress
import Lox.Proofs.Grammar.Cursor
import Lox.Proofs.Grammar.Sequel
import Lox.Proofs.Sessions.Provenance
import Lox.Proofs.Grammar.Numbering
import Lox.Proofs.Grammar.Earliest
import Lox.Proofs.Heap.Reach
import Lox.Proofs.Eval.Reach
import Lox.Proofs.Grammar.Loops
import Lox.Proofs.Sessions.Renamed
import Lox.Proofs.Sessions.Loops
import Lox.Proofs.Heap.Shadowing
import Lox.Proofs.Eval.Returns
import Lox.Proofs.Sessions.Internal
import Lox.Proofs.Syntax.Bare
import Lox.Proofs.Eval.Properties
import Lox.Proofs.Sessions.Classes
import Lox.Proofs.Heap.Growth
import Lox.Proofs.Eval.Growth
import Lox.Proofs.Sessions.Rooted
import Lox.Proofs.Number.Rounding
import Lox.Proofs.Number.Shortest
import Lox.Proofs.Number.Binary
import Lox.Proofs.Number.Text
import Lox.Proofs.Number.ReadBack
import Lox.Proofs.Syntax.Sexp
import Lox.Proofs.Syntax.Form
import Lox.Proofs.Grammar.Spelled
import Lox.Proofs.Syntax.Reading
import Lox.Proofs.Syntax.Unambiguous
