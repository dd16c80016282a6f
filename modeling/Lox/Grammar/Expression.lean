import Lox.Grammar.Reply

namespace Lox

-- The levels of binary operators, from the loosest to the tightest. Operators of one level lean to
-- the left, and a tighter level stands on both sides of them. Assignment is looser than all of
-- these, and leans to the right.
inductive Level
  | disjunction
  | conjunction
  | equality
  | comparison
  | term
  | factor
  deriving DecidableEq

namespace Level

def all : List Level :=
  [disjunction, conjunction, equality, comparison, term, factor]

def has : Level → Token → Bool
  | disjunction, .keyword .orWord  => true
  | conjunction, .keyword .andWord => true
  | equality,    .bangEqual        => true
  | equality,    .equalEqual       => true
  | comparison,  .greater          => true
  | comparison,  .greaterEqual     => true
  | comparison,  .less             => true
  | comparison,  .lessEqual        => true
  | term,        .minus            => true
  | term,        .plus             => true
  | factor,      .slash            => true
  | factor,      .star             => true
  | _,           _                 => false

def join : Level → Expr → Lexeme → Expr → Expr
  | disjunction => .logical
  | conjunction => .logical
  | _           => .binary

end Level

namespace Phrase

def primary (expression : Phrase Expr) : Phrase Expr
  | []      => .exhausted
  | l :: ls =>
    match l.token with
    | .literal value => .done (.literal value) ls []
    | .identifier _  => .done (.variable l) ls []
    | .leftParen     => group ls
    | _              => .failed ⟨.expectedExpression, l⟩ (l :: ls) []
where
  group : Phrase Expr := do
    let inner ← expression
    expect .rightParen .expectedRightParenAfterExpr
    return .grouping inner

def isUnaryOperator : Token → Bool
  | .bang  => true
  | .minus => true
  | _      => false

def unary (operand : Phrase Expr) : List Lexeme → Reply Expr
  | []      => .exhausted
  | l :: ls =>
    if isUnaryOperator l.token then
      (unary operand ls).andThen fun inner rest => .done (.unary l inner) rest []
    else operand (l :: ls)

def chain (level : Level) (operand : Phrase Expr) : Nat → Expr → Phrase Expr
  | 0,         _,    _       => .exhausted
  | _ + 1,     _,    []      => .exhausted
  | bound + 1, left, l :: ls =>
    if level.has l.token then
      (operand ls).andThen fun right => chain level operand bound (level.join left l right)
    else .done left (l :: ls) []

def operation (bound : Nat) (operand : Phrase Expr) : List Level → Phrase Expr
  | []               => operand
  | level :: tighter => do
    let left ← operation bound operand tighter
    chain level (operation bound operand tighter) bound left

-- Reads any expression of fewer lexemes than the bound. The phrases above are given those for their
-- parts, so this is where the recursion of the grammar is. Something that cannot be assigned to is
-- reported, and the phrase goes on as if nothing had been assigned.
def expression : Nat → Phrase Expr
  | 0         => fun _ => .exhausted
  | bound + 1 => do
    let target ← operation bound (unary (primary (expression bound))) Level.all
    match ← accept? .equal with
    | none        => return target
    | some equals =>
      let value ← expression bound
      match target with
      | .variable name => return .assign name value
      | _              =>
        note ⟨.invalidAssignmentTarget, equals⟩
        return target

end Phrase
end Lox
