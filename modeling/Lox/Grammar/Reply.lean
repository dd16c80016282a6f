import Lox.Tree.Basic

namespace Lox

inductive ParseErrorKind
  | expectedRightParenAfterExpr
  | expectedExpression
  | expectedSemicolonAfterValue
  | expectedSemicolonAfterExpr
  | expectedVariableName
  | expectedSemicolonAfterVarDeclaration
  | expectedLeftParenAfterIf
  | expectedRightParenAfterIfCondition
  | expectedLeftParenAfterWhile
  | expectedRightParenAfterCondition
  | expectedRightBraceAfterBlock
  | invalidAssignmentTarget
  deriving DecidableEq

structure ParseError where
  kind   : ParseErrorKind
  lexeme : Lexeme
  deriving DecidableEq

-- What reading a phrase from the front of a list of lexemes comes to, with the errors that were
-- noted on the way. A failed phrase leaves the lexeme that it failed at in place. A phrase is
-- exhausted if it is not over where the lexemes are, which takes a list without an end-of-file
-- lexeme.
inductive Reply (α : Type)
  | done (value : α) (rest : List Lexeme) (errors : List ParseError)
  | failed (error : ParseError) (rest : List Lexeme) (errors : List ParseError)
  | exhausted

namespace Reply

variable {α β : Type}

def after (errors : List ParseError) : Reply α → Reply α
  | done value rest later   => done value rest (errors ++ later)
  | failed error rest later => failed error rest (errors ++ later)
  | exhausted               => exhausted

def andThen (r : Reply α) (next : α → List Lexeme → Reply β) : Reply β :=
  match r with
  | done value rest errors   => (next value rest).after errors
  | failed error rest errors => failed error rest errors
  | exhausted                => exhausted

@[simp]
theorem after_nil (r : Reply α) : r.after [] = r := by
  cases r <;> rfl

theorem andThen_done (value : α) (rest : List Lexeme) (next : α → List Lexeme → Reply β) :
    (done value rest []).andThen next = next value rest :=
  after_nil _

end Reply

def Phrase (α : Type) := List Lexeme → Reply α

namespace Phrase

variable {α β : Type}

instance : Monad Phrase where
  pure value     := fun rest => .done value rest []
  bind p next ls := (p ls).andThen next

@[simp]
theorem pure_apply (value : α) (ls : List Lexeme) :
    (pure value : Phrase α) ls = .done value ls [] :=
  rfl

@[simp]
theorem bind_apply (p : Phrase α) (next : α → Phrase β) (ls : List Lexeme) :
    (p >>= next) ls = (p ls).andThen next :=
  rfl

theorem bind_of_done {p : Phrase α} {next : α → Phrase β} {value : α}
    {ls rest : List Lexeme} (h : p ls = .done value rest []) :
    (p >>= next) ls = next value rest := by
  rw [bind_apply, h]
  exact Reply.andThen_done ..

def note (error : ParseError) : Phrase Unit :=
  fun ls => .done () ls [error]

def accept? (token : Token) : Phrase (Option Lexeme)
  | []      => .exhausted
  | l :: ls => if l.token = token then .done (some l) ls [] else .done none (l :: ls) []

theorem accept?_of_eq {l : Lexeme} {t : Token} (h : l.token = t) (ls : List Lexeme) :
    accept? t (l :: ls) = .done (some l) ls [] :=
  if_pos h

theorem accept?_of_ne {l : Lexeme} {t : Token} (h : l.token ≠ t) (ls : List Lexeme) :
    accept? t (l :: ls) = .done none (l :: ls) [] :=
  if_neg h

def expect (token : Token) (kind : ParseErrorKind) : Phrase Unit
  | []      => .exhausted
  | l :: ls => if l.token = token then .done () ls [] else .failed ⟨kind, l⟩ (l :: ls) []

theorem expect_of_eq {l : Lexeme} {t : Token} (h : l.token = t) (kind : ParseErrorKind)
    (ls : List Lexeme) : expect t kind (l :: ls) = .done () ls [] :=
  if_pos h

def expectName : Phrase Lexeme
  | []      => .exhausted
  | l :: ls =>
    match l.token with
    | .identifier _ => .done l ls []
    | _             => .failed ⟨.expectedVariableName, l⟩ (l :: ls) []

end Phrase
end Lox
