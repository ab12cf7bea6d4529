/-
The prefix form of syntax trees: each node in parentheses behind its head, as in
`(+ 1.0 (group (* 2.0 3.0)))`. Methods are written by name only.
-/
import Lox.Number.Text
import Lox.Syntax

namespace Lox

/-- Numbers in trees: whole ones exactly and with `.0`, all others by their shortest digits. -/
def treeNumber : Number.Layout :=
  { Number.plain with exact := fun _ => true, exactEnd := ".0" }

def Literal.text : Literal → String
  | .nil => "nil"
  | .bool true => "true"
  | .bool false => "false"
  | .number x => Number.text treeNumber x
  | .string s => s

mutual

def Expr.text : Expr → String
  | .assign _ name value => "(= " ++ name.lexeme ++ " " ++ value.text ++ ")"
  | .binary left op right => "(" ++ op.lexeme ++ " " ++ left.text ++ " " ++ right.text ++ ")"
  | .call callee _ args => "(call " ++ callee.text ++ Expr.spaced args ++ ")"
  | .get object name => "(. " ++ object.text ++ " " ++ name.lexeme ++ ")"
  | .group inner => "(group " ++ inner.text ++ ")"
  | .literal l => l.text
  | .logical left op right => "(" ++ op.lexeme ++ " " ++ left.text ++ " " ++ right.text ++ ")"
  | .set object name value =>
    "(= (. " ++ object.text ++ " " ++ name.lexeme ++ ") " ++ value.text ++ ")"
  | .unary op right => "(" ++ op.lexeme ++ " " ++ right.text ++ ")"
  | .variable _ name => name.lexeme

/-- The forms of expressions, a space before each. -/
def Expr.spaced : List Expr → String
  | [] => ""
  | e :: es => " " ++ e.text ++ Expr.spaced es

end

mutual

def Stmt.text : Stmt → String
  | .block body => "(block" ++ Stmt.spaced body ++ ")"
  | .class name methods =>
    "(class " ++ name.lexeme ++
      String.join (methods.map fun m => " (method " ++ m.name.lexeme ++ ")") ++ ")"
  | .expression e => "(; " ++ e.text ++ ")"
  | .function ⟨name, params, body⟩ =>
    "(fun " ++ name.lexeme ++ " (" ++ " ".intercalate (params.map (·.lexeme)) ++ ") (block" ++
      Stmt.spaced body ++ "))"
  | .if condition thenBranch none =>
    "(if " ++ condition.text ++ " " ++ thenBranch.text ++ ")"
  | .if condition thenBranch (some elseBranch) =>
    "(if " ++ condition.text ++ " " ++ thenBranch.text ++ " " ++ elseBranch.text ++ ")"
  | .print e => "(print " ++ e.text ++ ")"
  | .return _ none => "(return)"
  | .return _ (some value) => "(return " ++ value.text ++ ")"
  | .var name none => "(var " ++ name.lexeme ++ ")"
  | .var name (some initializer) => "(var " ++ name.lexeme ++ " " ++ initializer.text ++ ")"
  | .while condition body => "(while " ++ condition.text ++ " " ++ body.text ++ ")"

/-- The forms of statements, a space before each. -/
def Stmt.spaced : List Stmt → String
  | [] => ""
  | s :: ss => " " ++ s.text ++ Stmt.spaced ss

end

end Lox
