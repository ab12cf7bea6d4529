/-
Static scoping: which declaration each variable reference means. A scope is opened by every block,
and by every function for its parameters and its body together; the top level is not a scope, so
what no scope declares is left to be looked up among the globals when the program runs.

The walk through a program keeps the open scopes and records, for each reference to a name of an
open scope, how many scopes outward the name is declared. Class bodies are not entered.
-/
import Std.Data.ExtTreeMap
import Lox.Bindings
import Lox.StaticError
import Lox.Syntax

namespace Lox

/-- How many scopes outward the declaration of a reference is, by the id of the reference. -/
abbrev Distances := Std.ExtTreeMap Nat Nat

/-- The names a scope has declared so far. A name is ready once its initializer is done. -/
abbrev Scope := Bindings Bool

/-- The walk so far: the open scopes, innermost first, the distances found, and the errors, newest
first. -/
structure Scoping where
  scopes : List Scope
  distances : Distances
  errors : List StaticError

namespace Scoping

def start : Scoping := ⟨[], ∅, []⟩

def report (w : Scoping) (token : Token) (fault : ScopeFault) : Scoping :=
  { w with errors := .scoping token fault :: w.errors }

/-- Opens a scope. -/
def enter (w : Scoping) : Scoping := { w with scopes := .empty :: w.scopes }

/-- Closes the innermost scope. -/
def leave (w : Scoping) : Scoping := { w with scopes := w.scopes.tail }

/-- Declares a name in the innermost scope, not yet ready. The second declaration of a name in one
scope is an error. -/
def declare (w : Scoping) (name : Token) : Scoping :=
  match w.scopes with
  | [] => w
  | scope :: outer =>
    if scope.binds name.lexeme then w.report name .alreadyDeclared
    else { w with scopes := scope.put name.lexeme false :: outer }

/-- Makes a name of the innermost scope ready. -/
def define (w : Scoping) (name : Token) : Scoping :=
  match w.scopes with
  | [] => w
  | scope :: outer => { w with scopes := scope.put name.lexeme true :: outer }

/-- Declares a name that is ready at once. -/
def introduce (w : Scoping) (name : Token) : Scoping := (w.declare name).define name

/-- How far out the innermost scope is that declares the name. -/
def distance? (scopes : List Scope) (name : String) : Option Nat :=
  scopes.findIdx? (·.binds name)

/-- Records what a reference means. -/
def refer (w : Scoping) (id : Nat) (name : Token) : Scoping :=
  match distance? w.scopes name.lexeme with
  | some d => { w with distances := w.distances.insert id d }
  | none => w

/-- Is the name declared but not ready in the innermost scope? -/
def unready (scopes : List Scope) (name : String) : Bool :=
  match scopes with
  | [] => false
  | scope :: _ => scope.get? name == some false

/-- Records what a read means; a name cannot be read in its own initializer. -/
def read (w : Scoping) (id : Nat) (name : Token) : Scoping :=
  let w := if unready w.scopes name.lexeme then w.report name .readInOwnInitializer else w
  w.refer id name

end Scoping

mutual

/-- Walks through an expression. -/
def Expr.scope (w : Scoping) : Expr → Scoping
  | .literal _ => w
  | .group inner => inner.scope w
  | .unary _ right => right.scope w
  | .binary left _ right => right.scope (left.scope w)
  | .logical left _ right => right.scope (left.scope w)
  | .variable id name => w.read id name
  | .assign id name value => (value.scope w).refer id name
  | .call callee _ args => Expr.scopeAll (callee.scope w) args
  | .get object _ => object.scope w
  | .set object _ value => object.scope (value.scope w)

def Expr.scopeAll (w : Scoping) : List Expr → Scoping
  | [] => w
  | e :: es => Expr.scopeAll (e.scope w) es

end

/-- Walks through an expression that may be absent. -/
def Expr.scope? (w : Scoping) : Option Expr → Scoping
  | none => w
  | some e => e.scope w

mutual

/-- Walks through a statement, inside or outside of a function. -/
def Stmt.scope (inFunction : Bool) (w : Scoping) : Stmt → Scoping
  | .block body => (Stmt.scopeAll inFunction w.enter body).leave
  | .class name _ => w.introduce name
  | .var name initializer => (Expr.scope? (w.declare name) initializer).define name
  | .function ⟨name, params, body⟩ =>
    let inner := params.foldl Scoping.introduce (w.introduce name).enter
    (Stmt.scopeAll true inner body).leave
  | .expression e => e.scope w
  | .print e => e.scope w
  | .if condition thenBranch none => thenBranch.scope inFunction (condition.scope w)
  | .if condition thenBranch (some elseBranch) =>
    elseBranch.scope inFunction (thenBranch.scope inFunction (condition.scope w))
  | .while condition body => body.scope inFunction (condition.scope w)
  | .return keyword value =>
    let w := if inFunction then w else w.report keyword .returnOutsideFunction
    Expr.scope? w value

def Stmt.scopeAll (inFunction : Bool) (w : Scoping) : List Stmt → Scoping
  | [] => w
  | s :: ss => Stmt.scopeAll inFunction (s.scope inFunction w) ss

end

/-- The distances of all references of a program, or all its scoping errors in the order of the
walk. -/
def distancesOf (program : List Stmt) : Except (List StaticError) Distances :=
  let w := Stmt.scopeAll false .start program
  if w.errors.isEmpty then .ok w.distances else .error w.errors.reverse

end Lox
