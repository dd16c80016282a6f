import Lox.Proofs.Syntax.Grammar
import Lox.Grammar.Program

namespace Lox

namespace Level

theorem has_iff (l : Level) (t : Token) :
    l.has t ↔ t ∈ l.logicalOperators ∨ t ∈ l.binaryOperators := by
  cases l <;> cases t
  case disjunction.keyword word | conjunction.keyword word => cases word <;> decide
  all_goals simp [has, logicalOperators, binaryOperators]

theorem join_eq_logical {l : Level} {t : Token} (h : t ∈ l.logicalOperators) (left : Expr)
    (operator : Lexeme) (right : Expr) :
    l.join left operator right = .logical left operator right := by
  cases l <;> simp [logicalOperators] at h <;> rfl

theorem join_eq_binary {l : Level} {t : Token} (h : t ∈ l.binaryOperators) (left : Expr)
    (operator : Lexeme) (right : Expr) :
    l.join left operator right = .binary left operator right := by
  cases l <;> simp [binaryOperators] at h <;> rfl

theorem yield_join (l : Level) (left : Expr) (operator : Lexeme) (right : Expr) :
    (l.join left operator right).yield = left.yield ++ .held operator :: right.yield := by
  cases l <;> rfl

def onward (l : Level) : List Level :=
  all.dropWhile (· ≠ l)

end Level

namespace Category

-- Whether a phrase of the category would go on at a token, behind a tree that it has read. This is
-- all that a tree needs to know of what stands behind it.
def continues : Category → Token → Bool
  | assignment, t => t = .equal || Level.all.any (·.has t)
  | level l,    t => l.onward.any (·.has t)
  | _,          _ => false

theorem continues_assignment (t : Token) :
    assignment.continues t = (decide (t = .equal) || (level .disjunction).continues t) :=
  rfl

theorem continues_level (l : Level) (t : Token) :
    (level l).continues t = (l.has t || l.tighter.continues t) := by
  cases l <;> rfl

theorem continues_tighter_of_has {l : Level} {t : Token} (h : l.has t) :
    l.tighter.continues t = false := by
  rcases (Level.has_iff l t).mp h with h | h
  all_goals
    cases l <;> simp only [Level.logicalOperators, Level.binaryOperators, List.mem_cons,
      List.not_mem_nil, or_false] at h
    all_goals rcases h with rfl | rfl | rfl | rfl <;> rfl

end Category

namespace Phrase

theorem isUnaryOperator_iff {t : Token} : isUnaryOperator t ↔ t ∈ [Token.bang, Token.minus] := by
  cases t <;> simp [isUnaryOperator]

def ofCategory (bound : Nat) : Category → Phrase Expr
  | .assignment => expression (bound + 1)
  | .level l    => operation bound (unary (primary (expression bound))) l.onward
  | .unary      => unary (primary (expression bound))
  | .primary    => primary (expression bound)

def assigned (target : Expr) (equals : Lexeme) (value : Expr) : Phrase Expr :=
  match target with
  | .variable name => pure (.assign name value)
  | _              => fun ls => .done target ls [⟨.invalidAssignmentTarget, equals⟩]

theorem ofCategory_assignment (bound : Nat) (ls : List Lexeme) :
    ofCategory bound .assignment ls =
      (ofCategory bound (.level .disjunction) ls).andThen fun target rest =>
        (accept? .equal rest).andThen fun
          | none,        rest => .done target rest []
          | some equals, rest =>
            (expression bound rest).andThen fun value rest =>
              assigned target equals value rest := by
  rw [ofCategory, expression, bind_apply]
  congr 1
  funext target rest
  rw [bind_apply]
  congr 1
  funext equals? rest
  cases equals?
  case none => rfl
  case some equals =>
    show Reply.andThen _ _ = Reply.andThen _ _
    congr 1

theorem ofCategory_level (bound : Nat) (l : Level) (ls : List Lexeme) :
    ofCategory bound (.level l) ls =
      (ofCategory bound l.tighter ls).andThen fun left rest =>
        chain l (ofCategory bound l.tighter) bound left rest := by
  cases l <;> rfl

variable {level : Level} {l : Lexeme}

theorem chain_of_has (h : level.has l.token) (operand : Phrase Expr) (bound : Nat) (left : Expr)
    (ls : List Lexeme) :
    chain level operand (bound + 1) left (l :: ls) =
      (operand ls).andThen fun right rest =>
        chain level operand bound (level.join left l right) rest :=
  if_pos h

theorem chain_of_not_has (h : level.has l.token = false) (operand : Phrase Expr) (bound : Nat)
    (left : Expr) (ls : List Lexeme) :
    chain level operand (bound + 1) left (l :: ls) = .done left (l :: ls) [] :=
  if_neg <| ne_true_of_eq_false h

end Phrase
end Lox
