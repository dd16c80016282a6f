import Lox.Proofs.Syntax.Bounds

namespace Lox

open List (Forall₂)

namespace Phrase.Unbounded

def expression : Phrase Expr :=
  fun ls => Phrase.expression (ls.length + 1) ls

def statement : Phrase Stmt :=
  fun ls => Phrase.statement (ls.length + 1) ls

def round : Phrase (Option Stmt) :=
  recovered (declaration expression statement)

-- The loop with all the rounds that its lexemes can take, for phrases that have the bounds they
-- need as well. It satisfies the equations of the loop without a bound, which are those below, and
-- reads of a program what the bounded loop does.
def declarations (closes : Token → Bool) : Phrase (List Stmt) :=
  fun ls => Phrase.declarations closes (declaration expression statement) (ls.length + 1) ls

theorem alike_expression_of_le {n bound bound' : Nat} (hb : n ≤ bound) (hb' : n ≤ bound') :
    Alike n (Phrase.expression bound) (Phrase.expression bound') :=
  Limit.none_expression bound ▸ Limit.none.alike_expression hb hb'

theorem alike_statement_of_le {n bound bound' : Nat} (hb : n ≤ bound) (hb' : n ≤ bound') :
    Alike n (Phrase.statement bound) (Phrase.statement bound') :=
  Limit.none_statement bound ▸ Limit.none.alike_statement hb hb'

theorem alike_expression (bound : Nat) : Alike bound (Phrase.expression bound) expression :=
  fun ls hl => alike_expression_of_le hl (Nat.le_refl _) ls (Nat.lt_succ_self _)

theorem alike_statement (bound : Nat) : Alike bound (Phrase.statement bound) statement :=
  fun ls hl => alike_statement_of_le hl (Nat.le_refl _) ls (Nat.lt_succ_self _)

theorem alike_declaration (bound : Nat) :
    Alike bound (declaration expression statement)
      (declaration (Phrase.expression bound) (Phrase.statement bound)) :=
  (alike_expression bound).symm.declaration (fun ls => (orderly_expression bound ls).ne_eof)
    (alike_statement bound).symm

theorem advances_declaration : Advances (declaration expression statement) :=
  fun l ls _ _ _ hl hr => Phrase.advances_declaration _ l ls _ _ _ hl
    (((alike_declaration _).recovered (l :: ls) (Nat.lt_succ_self _)).symm.trans hr)

variable {l : Lexeme} {ls rest : List Lexeme} {closes : Token → Bool}

theorem declarations_of_le (hc : closes .eof) {bound : Nat} (hb : ls.length ≤ bound) :
    Phrase.declarations closes (declaration expression statement) bound ls =
      declarations closes ls := by
  rw [← Limit.none_declarations]
  exact Limit.none.declarations_eq hc (.refl _ _) advances_declaration (Nat.lt_succ_self _) hb
    (Nat.le_succ _)

theorem declarations_eq (hc : closes .eof) {inner bound : Nat} (hi : ls.length < inner)
    (hb : ls.length ≤ bound) :
    Phrase.declarations closes
      (declaration (Phrase.expression inner) (Phrase.statement inner)) bound ls =
        declarations closes ls := by
  rw [← Limit.none_declarations, ← declarations_of_le hc hb]
  exact Limit.none.declarations_eq hc (alike_declaration inner).symm advances_declaration hi
    hb hb

theorem declarations_of_closes (h : closes l.token) (ls : List Lexeme) :
    declarations closes (l :: ls) = .done [] (l :: ls) [] :=
  if_pos h

theorem declarations_cons (hc : closes .eof) (h : closes l.token = false) (ls : List Lexeme) :
    declarations closes (l :: ls) =
      (round (l :: ls)).andThen fun stmt? rest =>
        (declarations closes rest).andThen fun stmts rest =>
          .done (stmt?.toList ++ stmts) rest [] := by
  have hl : ¬l.IsEnd := fun he => by
    rw [he, hc] at h
    contradiction
  rw [declarations, Phrase.declarations, h, if_neg Bool.false_ne_true]
  cases hr : round (l :: ls)
  case done stmt? rest errors =>
    have hb : rest.length ≤ (l :: ls).length :=
      Nat.le_succ_of_le <| advances_declaration l ls _ _ _ hl hr
    rw [round] at hr
    rw [hr]
    exact congrArg (fun r => (Reply.andThen r _).after errors) (declarations_of_le hc hb)
  case failed | exhausted =>
    rw [round] at hr
    rw [hr]
    rfl

theorem statement_cons (l : Lexeme) (ls : List Lexeme) :
    statement (l :: ls) =
      match l.token with
      | .keyword .ifWord    => conditional expression statement ls
      | .keyword .whileWord => loop expression statement ls
      | .keyword .printWord => print expression ls
      | .leftBrace          => block (declarations closesBlock) ls
      | _                   => bare expression (l :: ls) := by
  have hb := Nat.lt_succ_self ls.length
  have he := (alike_expression (ls.length + 1)).symm
  have hs := (alike_statement (ls.length + 1)).symm
  have ho (ls' : List Lexeme) := (orderly_expression (ls.length + 1) ls').ne_eof
  have hbare : bare expression (l :: ls) = bare (Phrase.expression (ls.length + 2)) (l :: ls) :=
    (alike_expression (ls.length + 2)).symm.bare (l :: ls) (Nat.lt_succ_self _)
  rw [statement, List.length_cons, Phrase.statement]
  cases l.token
  case leftBrace =>
    refine Alike.block (n := ls.length + 1) (fun ls' hl => ?_) ls hb
    exact declarations_eq rfl hl (Nat.le_of_lt_succ (Nat.lt_succ_of_lt hl))
  case keyword word =>
    cases word
    case ifWord => exact (he.conditional ho hs (orderly_statement _) ls hb).symm
    case whileWord => exact (he.loop ho hs ls hb).symm
    case printWord => exact (he.print ls hb).symm
    all_goals exact hbare.symm
  all_goals exact hbare.symm

theorem statement_bare (h : l.token.opensExpression) (ls : List Lexeme) :
    statement (l :: ls) = bare expression (l :: ls) := by
  rw [statement_cons]
  split
  case h_5 => rfl
  all_goals rename_i ht; rw [ht] at h; contradiction

theorem localAt_of_eq {α : Type} {T : Token → Prop} {p : Phrase α} {q : Nat → Phrase α}
    (hq : ∀ bound ls, ls.length < bound → q bound ls = p ls) (h : ∀ bound, LocalAt T (q bound) ls) :
    LocalAt T p ls := by
  intro rest hr
  obtain ⟨used, hu, hT, _⟩ := h (ls.length + 1) rest (by rw [hq _ _ (Nat.lt_succ_self _), hr])
  refine ⟨used, hu, hT, fun rest' he => ?_⟩
  let bound := max ls.length (used ++ rest').length + 1
  have hb : ls.length < bound := Nat.lt_succ_of_le (Nat.le_max_left ..)
  have hb' : (used ++ rest').length < bound := Nat.lt_succ_of_le (Nat.le_max_right ..)
  obtain ⟨used', hu', _, hl⟩ := h bound rest (by rw [hq _ _ hb, hr])
  rw [← List.append_cancel_right (hu.symm.trans hu')] at hl
  rw [← hq _ _ hb', hl rest' he, hq _ _ hb]

theorem localAt_expression (ls : List Lexeme) : LocalAt (·.inExpression) expression ls :=
  localAt_of_eq alike_expression fun bound => (orderly_expression bound ls).localAt

theorem localAt_declarations (hc : closes .eof) (ls : List Lexeme) :
    LocalAt (· ≠ .eof) (declarations closes) ls :=
  localAt_of_eq (fun _ _ hb => declarations_eq hc hb (Nat.le_of_lt hb)) fun bound =>
    (orderly_bounded closes bound ls).localAt

end Phrase.Unbounded

theorem Phrase.program_eq {bound : Nat} {ls : List Lexeme} (hb : ls.length < bound) :
    Phrase.program bound ls = Unbounded.declarations closesProgram ls :=
  Unbounded.declarations_eq rfl hb (Nat.le_of_lt hb)

theorem parse?_eq_some_iff {ls : List Lexeme} {parsed : Parsed} :
    parse? ls = some parsed ↔ ∃ rest,
      Phrase.Unbounded.declarations Phrase.closesProgram ls =
        .done parsed.statements rest parsed.errors := by
  rw [parse?, Phrase.program_eq (Nat.lt_succ_self _)]
  cases Phrase.Unbounded.declarations Phrase.closesProgram ls
  case done stmts rest errors =>
    constructor
    case mp =>
      intro h
      cases h
      exact ⟨rest, rfl⟩
    case mpr =>
      rintro ⟨_, h⟩
      cases h
      rfl
  all_goals simp

end Lox
