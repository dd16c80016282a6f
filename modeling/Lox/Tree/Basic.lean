import Lox.Lexeme.Basic

namespace Lox

-- Trees hold the lexemes of their names and operators, and not only what these stand for, so that
-- an error can be shown where it arose.
inductive Expr
  | literal (value : Value)
  | variable (name : Lexeme)
  | grouping (inner : Expr)
  | unary (operator : Lexeme) (operand : Expr)
  | binary (left : Expr) (operator : Lexeme) (right : Expr)
  | logical (left : Expr) (operator : Lexeme) (right : Expr)
  | assign (name : Lexeme) (value : Expr)
  deriving DecidableEq, Inhabited

inductive Stmt
  | print (value : Expr)
  | expression (value : Expr)
  | declare (name : Lexeme) (initial : Option Expr)
  | block (body : List Stmt)
  | ifThen (condition : Expr) (branch : Stmt)
  | ifElse (condition : Expr) (branch otherwise : Stmt)
  | loop (condition : Expr) (body : Stmt)
  deriving Inhabited

end Lox
