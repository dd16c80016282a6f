import Lox.Semantics.Scope
import Lox.Tree.Basic

namespace Lox

inductive RuntimeErrorKind
  | operandMustBeNumber
  | operandsMustBeNumbers
  | operandsMustBeNumbersOrStrings
  | undefinedVariable
  deriving DecidableEq

structure RuntimeError where
  kind   : RuntimeErrorKind
  lexeme : Lexeme
  deriving DecidableEq

-- Why an expression has no value. An error is found at an operator or at the name of a variable,
-- and can be reported. A misfit is an operator that its node cannot have, which takes a tree that
-- was not read from lexemes.
inductive Fault
  | error (e : RuntimeError)
  | misfit (operator : Lexeme)
  deriving DecidableEq

namespace Lexeme

def applyUnary (operator : Lexeme) (operand : Value) : Except Fault Value :=
  match operator.token with
  | .minus =>
    match operand with
    | .number x => .ok (.number (-x))
    | _         => .error <| .error ⟨.operandMustBeNumber, operator⟩
  | .bang  => .ok (.boolean !operand.truthy)
  | _      => .error <| .misfit operator

def add (operator : Lexeme) : Value → Value → Except Fault Value
  | .number x, .number y => .ok (.number (x + y))
  | .string s, .string t => .ok (.string (s ++ t))
  | _,         _         => .error <| .error ⟨.operandsMustBeNumbersOrStrings, operator⟩

def onNumbers (operator : Lexeme) (f : Float → Float → Value) : Value → Value → Except Fault Value
  | .number x, .number y => .ok (f x y)
  | _,         _         => .error <| .error ⟨.operandsMustBeNumbers, operator⟩

def applyBinary (operator : Lexeme) (left right : Value) : Except Fault Value :=
  match operator.token with
  | .plus         => operator.add left right
  | .minus        => operator.onNumbers (fun x y => .number (x - y)) left right
  | .star         => operator.onNumbers (fun x y => .number (x * y)) left right
  | .slash        => operator.onNumbers (fun x y => .number (x / y)) left right
  | .greater      => operator.onNumbers (fun x y => .boolean (y < x)) left right
  | .greaterEqual => operator.onNumbers (fun x y => .boolean (y ≤ x)) left right
  | .less         => operator.onNumbers (fun x y => .boolean (x < y)) left right
  | .lessEqual    => operator.onNumbers (fun x y => .boolean (x ≤ y)) left right
  | .equalEqual   => .ok (.boolean (left.equal right))
  | .bangEqual    => .ok (.boolean !(left.equal right))
  | _             => .error <| .misfit operator

def decides (operator : Lexeme) (left : Value) : Except Fault Bool :=
  match operator.token with
  | .keyword .orWord  => .ok left.truthy
  | .keyword .andWord => .ok !left.truthy
  | _                 => .error <| .misfit operator

def undefined (name : Lexeme) : Fault :=
  .error ⟨.undefinedVariable, name⟩

end Lexeme

namespace Expr

-- Evaluation goes from left to right. It changes the environment by assigning only, and what was
-- assigned before a fault stays assigned, so there is an environment with a fault as well.
def eval : Expr → Environment → Except Fault Value × Environment
  | .literal value, env => (.ok value, env)
  | .variable name, env =>
    match env.get? name.content with
    | some value => (.ok value, env)
    | none       => (.error name.undefined, env)
  | .grouping inner, env => inner.eval env
  | .unary operator operand, env =>
    match operand.eval env with
    | (.ok value, env)    => (operator.applyUnary value, env)
    | (.error fault, env) => (.error fault, env)
  | .binary left operator right, env =>
    match left.eval env with
    | (.error fault, env) => (.error fault, env)
    | (.ok value, env)    =>
      match right.eval env with
      | (.error fault, env) => (.error fault, env)
      | (.ok value', env)   => (operator.applyBinary value value', env)
  | .logical left operator right, env =>
    match left.eval env with
    | (.error fault, env) => (.error fault, env)
    | (.ok value, env)    =>
      match operator.decides value with
      | .error fault => (.error fault, env)
      | .ok true     => (.ok value, env)
      | .ok false    => right.eval env
  | .assign name value, env =>
    match value.eval env with
    | (.error fault, env) => (.error fault, env)
    | (.ok value, env)    =>
      match env.assign? name.content value with
      | some env => (.ok value, env)
      | none     => (.error name.undefined, env)

end Expr
end Lox
