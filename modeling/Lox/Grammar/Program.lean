import Lox.Grammar.Expression

namespace Lox

structure Parsed where
  statements : List Stmt
  errors     : List ParseError

namespace Phrase

-- The place to go on after an error: behind the next semicolon, or before a word that begins a
-- statement, so that one run over the lexemes finds all errors. The lexeme that the error was found
-- at is passed whatever it is, even if it is such a word, but the end of the file never is.
def resume? : List Lexeme → Option (List Lexeme)
  | []      => none
  | l :: ls =>
    match l.token with
    | .eof       => some (l :: ls)
    | .semicolon => some ls
    | _          =>
      match ls with
      | []        => none
      | next :: _ => if next.token.startsStatement then some ls else resume? ls

def declare (expression : Phrase Expr) : Phrase Stmt := do
  let name ← expectName
  match ← accept? .equal with
  | some _ =>
    let initial ← expression
    expect .semicolon .expectedSemicolonAfterVarDeclaration
    return .declare name (some initial)
  | none =>
    expect .semicolon .expectedSemicolonAfterVarDeclaration
    return .declare name none

def declaration (expression : Phrase Expr) (statement : Phrase Stmt) : Phrase Stmt
  | []      => .exhausted
  | l :: ls =>
    match l.token with
    | .keyword .varWord => declare expression ls
    | _                 => statement (l :: ls)

def recovered {α : Type} (phrase : Phrase α) : Phrase (Option α) := fun ls =>
  match phrase ls with
  | .done value rest errors   => .done (some value) rest errors
  | .failed error rest errors =>
    match resume? rest with
    | some rest' => .done none rest' (errors ++ [error])
    | none       => .exhausted
  | .exhausted => .exhausted

-- Declarations up to a token that closes them, which is left in place. One that fails is dropped,
-- and leaves nothing but its errors and a place to go on from.
def declarations (closes : Token → Bool) (declaration : Phrase Stmt) : Nat → Phrase (List Stmt)
  | 0,         _       => .exhausted
  | _ + 1,     []      => .exhausted
  | bound + 1, l :: ls =>
    if closes l.token then .done [] (l :: ls) []
    else
      (recovered declaration (l :: ls)).andThen fun stmt? rest =>
        (declarations closes declaration bound rest).andThen fun stmts rest =>
          .done (stmt?.toList ++ stmts) rest []

def closesProgram (t : Token) : Bool :=
  t = .eof

def closesBlock (t : Token) : Bool :=
  t = .rightBrace || t = .eof

def block (declarations : Phrase (List Stmt)) : Phrase Stmt := do
  let body ← declarations
  expect .rightBrace .expectedRightBraceAfterBlock
  return .block body

def conditional (expression : Phrase Expr) (statement : Phrase Stmt) : Phrase Stmt := do
  expect .leftParen .expectedLeftParenAfterIf
  let condition ← expression
  expect .rightParen .expectedRightParenAfterIfCondition
  let branch ← statement
  match ← accept? (.keyword .elseWord) with
  | some _ => return .ifElse condition branch (← statement)
  | none   => return .ifThen condition branch

def loop (expression : Phrase Expr) (statement : Phrase Stmt) : Phrase Stmt := do
  expect .leftParen .expectedLeftParenAfterWhile
  let condition ← expression
  expect .rightParen .expectedRightParenAfterCondition
  return .loop condition (← statement)

def print (expression : Phrase Expr) : Phrase Stmt := do
  let value ← expression
  expect .semicolon .expectedSemicolonAfterValue
  return .print value

def bare (expression : Phrase Expr) : Phrase Stmt := do
  let value ← expression
  expect .semicolon .expectedSemicolonAfterExpr
  return .expression value

def statement : Nat → Phrase Stmt
  | 0,         _       => .exhausted
  | _ + 1,     []      => .exhausted
  | bound + 1, l :: ls =>
    match l.token with
    | .keyword .ifWord    => conditional (expression bound) (statement bound) ls
    | .keyword .whileWord => loop (expression bound) (statement bound) ls
    | .keyword .printWord => print (expression bound) ls
    | .leftBrace          =>
      block (declarations closesBlock (declaration (expression bound) (statement bound)) bound) ls
    | _                   => bare (expression (bound + 1)) (l :: ls)

def program (bound : Nat) : Phrase (List Stmt) :=
  declarations closesProgram (declaration (expression bound) (statement bound)) bound

end Phrase

-- No phrase reads more lexemes than there are, so this bound is never met. Only lexemes without an
-- end of the file have no answer, and the lexemes of a source always have one.
def parse? (lexemes : List Lexeme) : Option Parsed :=
  match Phrase.program (lexemes.length + 1) lexemes with
  | .done statements _ errors => some { statements, errors }
  | _                         => none

end Lox
