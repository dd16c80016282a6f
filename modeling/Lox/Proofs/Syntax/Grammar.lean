import Mathlib.Data.List.Forall2
import Lox.Grammar.Expression

namespace Lox

open List (Forall₂)

-- What a tree says about one lexeme of its text. A name or an operator is the lexeme that the tree
-- holds, and of everything else only the token is left in the tree.
inductive Terminal
  | held (l : Lexeme)
  | free (t : Token)

namespace Terminal

def token : Terminal → Token
  | held l => l.token
  | free t => t

def Fits : Terminal → Lexeme → Prop
  | held l, l' => l' = l
  | free t, l' => l'.token = t

theorem Fits.token_eq {t : Terminal} {l : Lexeme} (h : t.Fits l) : l.token = t.token := by
  cases t
  case held => rw [show l = _ from h, token]
  case free => exact h

theorem map_token_eq_of_fits {ts : List Terminal} {ls : List Lexeme}
    (h : Forall₂ Fits ts ls) : ls.map Lexeme.token = ts.map token := by
  induction h
  case nil => rfl
  case cons hf _ hi => rw [List.map_cons, List.map_cons, hf.token_eq, hi]

variable {ts ts' : List Terminal} {ls : List Lexeme}

theorem forall₂_fits_append (h : Forall₂ Fits (ts ++ ts') ls) :
    ∃ ls₁ ls₂, ls = ls₁ ++ ls₂ ∧ Forall₂ Fits ts ls₁ ∧ Forall₂ Fits ts' ls₂ := by
  induction ts generalizing ls
  case nil => exact ⟨[], ls, rfl, .nil, h⟩
  case cons t ts hi =>
    obtain _ | ⟨hf, hfs⟩ := h
    have ⟨ls₁, ls₂, he, h₁, h₂⟩ := hi hfs
    exact ⟨_ :: ls₁, ls₂, by rw [he, List.cons_append], .cons hf h₁, h₂⟩

theorem forall₂_fits_held {l : Lexeme} (h : Forall₂ Fits (held l :: ts) ls) :
    ∃ ls', ls = l :: ls' ∧ Forall₂ Fits ts ls' := by
  have ⟨_, ls', he, h', hl⟩ := List.forall₂_cons_left_iff.mp h
  cases show _ = l from he
  exact ⟨ls', hl, h'⟩

theorem forall₂_fits_free {t : Token} (h : Forall₂ Fits (free t :: ts) ls) :
    ∃ l ls', ls = l :: ls' ∧ l.token = t ∧ Forall₂ Fits ts ls' := by
  have ⟨l, ls', ht, h', hl⟩ := List.forall₂_cons_left_iff.mp h
  exact ⟨l, ls', hl, ht, h'⟩

theorem forall₂_fits_closed {t : Token} (h : Forall₂ Fits (ts ++ [free t]) ls) :
    ∃ ls' l, ls = ls' ++ [l] ∧ Forall₂ Fits ts ls' ∧ l.token = t := by
  have ⟨ls₁, ls₂, he, h₁, h₂⟩ := forall₂_fits_append h
  have ⟨l, _, he', ht, h₃⟩ := forall₂_fits_free h₂
  cases h₃
  exact ⟨ls₁, l, by rw [he, he'], h₁, ht⟩

end Terminal

def Expr.yield : Expr → List Terminal
  | literal value               => [.free (.literal value)]
  | .variable name              => [.held name]
  | grouping inner              => .free .leftParen :: inner.yield ++ [.free .rightParen]
  | unary operator operand      => .held operator :: operand.yield
  | binary left operator right  => left.yield ++ .held operator :: right.yield
  | logical left operator right => left.yield ++ .held operator :: right.yield
  | assign name value           => .held name :: .free .equal :: value.yield

theorem Terminal.forall₂_fits_condition {ts : List Terminal} {ls : List Lexeme} {t : Token}
    {condition : Expr}
    (h : Forall₂ Fits (free t :: free .leftParen :: condition.yield ++ free .rightParen :: ts) ls) :
    ∃ keyword opening used closing ls', ls = keyword :: opening :: (used ++ closing :: ls') ∧
      keyword.token = t ∧ opening.token = .leftParen ∧ Forall₂ Fits condition.yield used ∧
      closing.token = .rightParen ∧ Forall₂ Fits ts ls' := by
  have ⟨keyword, _, he, hk, h⟩ := forall₂_fits_free h
  have ⟨opening, _, he', ho, h⟩ := forall₂_fits_free h
  have ⟨used, _, he₁, hu, h⟩ := forall₂_fits_append h
  have ⟨closing, ls', he₂, hc, h⟩ := forall₂_fits_free h
  exact ⟨keyword, opening, used, closing, ls', by rw [he, he', he₁, he₂], hk, ho, hu, hc, h⟩

namespace Stmt

mutual

def yield : Stmt → List Terminal
  | print value                       =>
    .free (.keyword .printWord) :: value.yield ++ [.free .semicolon]
  | expression value                  => value.yield ++ [.free .semicolon]
  | declare name none                 =>
    [.free (.keyword .varWord), .held name, .free .semicolon]
  | declare name (some initial)       =>
    .free (.keyword .varWord) :: .held name :: .free .equal :: initial.yield ++ [.free .semicolon]
  | block body                        => .free .leftBrace :: yields body ++ [.free .rightBrace]
  | ifThen condition branch           =>
    .free (.keyword .ifWord) :: .free .leftParen :: condition.yield ++ .free .rightParen ::
      branch.yield
  | ifElse condition branch otherwise =>
    .free (.keyword .ifWord) :: .free .leftParen :: condition.yield ++ .free .rightParen ::
      (branch.yield ++ .free (.keyword .elseWord) :: otherwise.yield)
  | loop condition body               =>
    .free (.keyword .whileWord) :: .free .leftParen :: condition.yield ++ .free .rightParen ::
      body.yield

def yields : List Stmt → List Terminal
  | []            => []
  | stmt :: stmts => stmt.yield ++ yields stmts

end

theorem yields_append (stmts₁ stmts₂ : List Stmt) :
    yields (stmts₁ ++ stmts₂) = yields stmts₁ ++ yields stmts₂ := by
  induction stmts₁
  case nil => rfl
  case cons stmt stmts hi => simp only [List.cons_append, yields, hi, List.append_assoc]

end Stmt

inductive Category
  | assignment
  | level (l : Level)
  | unary
  | primary

namespace Level

def tighter : Level → Category
  | disjunction => .level conjunction
  | conjunction => .level equality
  | equality    => .level comparison
  | comparison  => .level term
  | term        => .level factor
  | factor      => .unary

def logicalOperators : Level → List Token
  | disjunction => [.keyword .orWord]
  | conjunction => [.keyword .andWord]
  | _           => []

def binaryOperators : Level → List Token
  | equality   => [.bangEqual, .equalEqual]
  | comparison => [.greater, .greaterEqual, .less, .lessEqual]
  | term       => [.minus, .plus]
  | factor     => [.slash, .star]
  | _          => []

end Level

def Lexeme.IsName (l : Lexeme) : Prop :=
  ∃ name, l.token = .identifier name

-- Which trees are expressions of the grammar, apart from how they are read. Operators of one level
-- lean to the left, so the tree on the right is of a tighter level, and assignments lean to the
-- right.
inductive Expr.Derives : Category → Expr → Prop
  | assign {name : Lexeme} {value : Expr} (hn : name.IsName) (hv : Derives .assignment value) :
    Derives .assignment (.assign name value)
  | loose {e : Expr} (h : Derives (.level .disjunction) e) : Derives .assignment e
  | logical {l : Level} {left right : Expr} {operator : Lexeme}
    (ho : operator.token ∈ l.logicalOperators) (hl : Derives (.level l) left)
    (hr : Derives l.tighter right) : Derives (.level l) (.logical left operator right)
  | binary {l : Level} {left right : Expr} {operator : Lexeme}
    (ho : operator.token ∈ l.binaryOperators) (hl : Derives (.level l) left)
    (hr : Derives l.tighter right) : Derives (.level l) (.binary left operator right)
  | tight {l : Level} {e : Expr} (h : Derives l.tighter e) : Derives (.level l) e
  | unary {operator : Lexeme} {operand : Expr} (ho : operator.token ∈ [Token.bang, Token.minus])
    (h : Derives .unary operand) : Derives .unary (.unary operator operand)
  | single {e : Expr} (h : Derives .primary e) : Derives .unary e
  | literal (value : Value) : Derives .primary (.literal value)
  | named {name : Lexeme} (hn : name.IsName) : Derives .primary (.variable name)
  | grouping {inner : Expr} (h : Derives .assignment inner) : Derives .primary (.grouping inner)

def Token.opensExpression : Token → Bool
  | literal _ | identifier _ | leftParen | bang | minus => true
  | _ => false

namespace Expr

theorem Derives.opens {e : Expr} {c : Category} {used : List Lexeme} (h : e.Derives c)
    (hf : Forall₂ Terminal.Fits e.yield used) :
    ∃ l ls, used = l :: ls ∧ l.token.opensExpression ∧
      (c = .primary → l.token ∉ [Token.bang, Token.minus]) := by
  induction h generalizing used
  case assign hn _ _ =>
    obtain ⟨_, rfl, _⟩ := Terminal.forall₂_fits_held hf
    have ⟨_, ht⟩ := hn
    exact ⟨_, _, rfl, by rw [ht]; rfl, nofun⟩
  case loose hi | tight hi | single hi =>
    have ⟨l, ls, he, ho, _⟩ := hi hf
    exact ⟨l, ls, he, ho, nofun⟩
  case logical hi _ | binary hi _ =>
    obtain ⟨_, used₂, rfl, hf₁, _⟩ := Terminal.forall₂_fits_append hf
    obtain ⟨l, ls, rfl, ho, _⟩ := hi hf₁
    exact ⟨l, ls ++ used₂, rfl, ho, nofun⟩
  case unary ho _ _ =>
    obtain ⟨_, rfl, _⟩ := Terminal.forall₂_fits_held hf
    refine ⟨_, _, rfl, ?_, nofun⟩
    simp only [List.mem_cons, List.not_mem_nil, or_false] at ho
    rcases ho with ho | ho <;> rw [ho] <;> rfl
  case literal | grouping =>
    obtain ⟨l, ls, rfl, ht, _⟩ := Terminal.forall₂_fits_free hf
    exact ⟨l, ls, rfl, by rw [ht]; rfl, fun _ => by rw [ht]; nofun⟩
  case named hn =>
    obtain ⟨_, rfl, _⟩ := Terminal.forall₂_fits_held hf
    have ⟨_, ht⟩ := hn
    exact ⟨_, _, rfl, by rw [ht]; rfl, fun _ => by rw [ht]; nofun⟩

end Expr

namespace Stmt

def isDeclaration : Stmt → Bool
  | declare .. => true
  | _          => false

def endsOpen : Stmt → Bool
  | ifThen ..            => true
  | ifElse _ _ otherwise => otherwise.endsOpen
  | loop _ body          => body.endsOpen
  | _                    => false

-- Declarations stand directly in a program or a block, and an else goes with the nearest if: a
-- branch with an else behind it must not end in an if that could have taken the else.
inductive WellFormed : Stmt → Prop
  | print {value : Expr} (hv : value.Derives .assignment) : WellFormed (print value)
  | expression {value : Expr} (hv : value.Derives .assignment) : WellFormed (expression value)
  | declare {name : Lexeme} {initial : Option Expr} (hn : name.IsName)
    (hi : ∀ e ∈ initial, e.Derives .assignment) : WellFormed (declare name initial)
  | block {body : List Stmt} (hb : ∀ stmt ∈ body, WellFormed stmt) : WellFormed (block body)
  | ifThen {condition : Expr} {branch : Stmt} (hc : condition.Derives .assignment)
    (hb : WellFormed branch) (hd : branch.isDeclaration = false) :
    WellFormed (ifThen condition branch)
  | ifElse {condition : Expr} {branch otherwise : Stmt} (hc : condition.Derives .assignment)
    (hb : WellFormed branch) (hd : branch.isDeclaration = false) (ho : branch.endsOpen = false)
    (hb' : WellFormed otherwise) (hd' : otherwise.isDeclaration = false) :
    WellFormed (ifElse condition branch otherwise)
  | loop {condition : Expr} {body : Stmt} (hc : condition.Derives .assignment)
    (hb : WellFormed body) (hd : body.isDeclaration = false) : WellFormed (loop condition body)

end Stmt

def Token.opensDeclaration : Token → Bool
  | keyword .varWord | keyword .ifWord | keyword .whileWord | keyword .printWord | leftBrace => true
  | t => t.opensExpression

theorem Token.opensDeclaration_of_opensExpression {t : Token} (h : t.opensExpression) :
    t.opensDeclaration := by
  cases t
  case keyword => contradiction
  all_goals first | contradiction | rfl

theorem Stmt.WellFormed.opens {stmt : Stmt} {used : List Lexeme} (h : stmt.WellFormed)
    (hf : Forall₂ Terminal.Fits stmt.yield used) :
    ∃ l ls, used = l :: ls ∧ l.token.opensDeclaration ∧
      (stmt.isDeclaration = false → l.token ≠ .keyword .varWord) := by
  cases h
  case expression hv =>
    obtain ⟨_, ls, rfl, hf₁, _⟩ := Terminal.forall₂_fits_append hf
    obtain ⟨l, ls', rfl, ho, _⟩ := hv.opens hf₁
    refine ⟨l, ls' ++ ls, rfl, Token.opensDeclaration_of_opensExpression ho, fun _ ht => ?_⟩
    rw [ht] at ho
    contradiction
  case declare initial _ _ =>
    cases initial
    all_goals
      obtain ⟨l, ls, rfl, ht, _⟩ := Terminal.forall₂_fits_free hf
      exact ⟨l, ls, rfl, by rw [ht]; rfl, nofun⟩
  all_goals
    obtain ⟨l, ls, rfl, ht, _⟩ := Terminal.forall₂_fits_free hf
    exact ⟨l, ls, rfl, by rw [ht]; rfl, fun _ => by rw [ht]; nofun⟩

end Lox
