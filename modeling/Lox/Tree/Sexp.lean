import Lox.Tree.Basic

namespace Lox

-- The head of a node stands before its parts. Names and operators are written as they stand in the
-- source and a string between quotes, so what is printed is made of lexemes again.
def parenthesize (head : String) (parts : List String) : String :=
  "(" ++ " ".intercalate (head :: parts) ++ ")"

def Value.sexp : Value → String
  | string text => "\"" ++ text ++ "\""
  | value       => value.text

def Expr.sexp : Expr → String
  | .literal value               => value.sexp
  | .variable name               => name.content
  | .grouping inner              => parenthesize "group" [inner.sexp]
  | .unary operator operand      => parenthesize operator.content [operand.sexp]
  | .binary left operator right  => parenthesize operator.content [left.sexp, right.sexp]
  | .logical left operator right => parenthesize operator.content [left.sexp, right.sexp]
  | .assign name value           => parenthesize "=" [name.content, value.sexp]

mutual

def Stmt.sexp : Stmt → String
  | .print value                       => parenthesize "print" [value.sexp]
  | .expression value                  => parenthesize ";" [value.sexp]
  | .declare name none                 => parenthesize "var" [name.content]
  | .declare name (some initial)       => parenthesize "var" [name.content, initial.sexp]
  | .block body                        => parenthesize "block" (Stmt.sexps body)
  | .ifThen condition branch           => parenthesize "if" [condition.sexp, branch.sexp]
  | .ifElse condition branch otherwise =>
    parenthesize "if" [condition.sexp, branch.sexp, otherwise.sexp]
  | .loop condition body               => parenthesize "while" [condition.sexp, body.sexp]

def Stmt.sexps : List Stmt → List String
  | []              => []
  | stmt :: program => stmt.sexp :: Stmt.sexps program

end

def Stmt.programSexp (program : List Stmt) : String :=
  "\n".intercalate (Stmt.sexps program)

end Lox
