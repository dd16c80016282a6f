import Lox.Proofs.Syntax.Locality

namespace Lox

-- What would be done by phrases that get to their bound with lexemes left. Below, the phrases are
-- those of the grammar, but for this: they do it where those are exhausted, so that an exhausted
-- phrase can be told from one that has run out of its bound.
structure Limit where
  atExpression   : Phrase Expr
  atStatement    : Phrase Stmt
  atDeclarations : Phrase (List Stmt)

namespace Limit

open Phrase

def chain (limit : Limit) (level : Level) (operand : Phrase Expr) : Nat → Expr → Phrase Expr
  | _,         _,    []      => .exhausted
  | 0,         _,    l :: ls => limit.atExpression (l :: ls)
  | bound + 1, left, l :: ls =>
    if level.has l.token then
      (operand ls).andThen fun right =>
        limit.chain level operand bound (level.join left l right)
    else .done left (l :: ls) []

def operation (limit : Limit) (bound : Nat) (operand : Phrase Expr) : List Level → Phrase Expr
  | []               => operand
  | level :: tighter => do
    let left ← limit.operation bound operand tighter
    limit.chain level (limit.operation bound operand tighter) bound left

def expression (limit : Limit) : Nat → Phrase Expr
  | 0         => limit.atExpression
  | bound + 1 => do
    let target ← limit.operation bound (unary (primary (limit.expression bound))) Level.all
    match ← accept? .equal with
    | none        => return target
    | some equals =>
      let value ← limit.expression bound
      match target with
      | .variable name => return .assign name value
      | _              =>
        note ⟨.invalidAssignmentTarget, equals⟩
        return target

def declarations (limit : Limit) (closes : Token → Bool) (declaration : Phrase Stmt) :
    Nat → Phrase (List Stmt)
  | _,         []      => .exhausted
  | 0,         l :: ls => limit.atDeclarations (l :: ls)
  | bound + 1, l :: ls =>
    if closes l.token then .done [] (l :: ls) []
    else
      (recovered declaration (l :: ls)).andThen fun stmt? rest =>
        (limit.declarations closes declaration bound rest).andThen fun stmts rest =>
          .done (stmt?.toList ++ stmts) rest []

def statement (limit : Limit) : Nat → Phrase Stmt
  | 0,         ls      => limit.atStatement ls
  | _ + 1,     []      => .exhausted
  | bound + 1, l :: ls =>
    match l.token with
    | .keyword .ifWord    => conditional (limit.expression bound) (limit.statement bound) ls
    | .keyword .whileWord => loop (limit.expression bound) (limit.statement bound) ls
    | .keyword .printWord => print (limit.expression bound) ls
    | .leftBrace          =>
      block (limit.declarations closesBlock
        (declaration (limit.expression bound) (limit.statement bound)) bound) ls
    | _                   => bare (limit.expression (bound + 1)) (l :: ls)

def program (limit : Limit) (bound : Nat) : Phrase (List Stmt) :=
  limit.declarations closesProgram
    (declaration (limit.expression bound) (limit.statement bound)) bound

def none : Limit :=
  ⟨fun _ => .exhausted, fun _ => .exhausted, fun _ => .exhausted⟩

theorem none_chain (level : Level) (operand : Phrase Expr) (bound : Nat) (left : Expr) :
    none.chain level operand bound left = Phrase.chain level operand bound left := by
  induction bound generalizing left
  case zero =>
    funext ls
    cases ls <;> rfl
  case succ bound hi =>
    funext ls
    cases ls
    case nil => rfl
    case cons l ls => simp only [chain, Phrase.chain, hi]

theorem none_operation (bound : Nat) (operand : Phrase Expr) (levels : List Level) :
    none.operation bound operand levels = Phrase.operation bound operand levels := by
  induction levels
  case nil => rfl
  case cons level tighter hi => simp only [operation, Phrase.operation, none_chain, hi]

theorem none_expression (bound : Nat) : none.expression bound = Phrase.expression bound := by
  induction bound
  case zero => rfl
  case succ bound hi =>
    rw [expression, Phrase.expression, hi]
    exact congrArg (bind (m := Phrase) · _) (none_operation bound _ Level.all)

theorem none_declarations (closes : Token → Bool) (declaration : Phrase Stmt) (bound : Nat) :
    none.declarations closes declaration bound = Phrase.declarations closes declaration bound := by
  induction bound
  case zero =>
    funext ls
    cases ls <;> rfl
  case succ bound hi =>
    funext ls
    cases ls
    case nil => rfl
    case cons l ls => simp only [declarations, Phrase.declarations, hi]

theorem none_statement (bound : Nat) : none.statement bound = Phrase.statement bound := by
  induction bound
  case zero => rfl
  case succ bound hi =>
    funext ls
    cases ls
    case nil => rfl
    case cons l ls =>
      obtain ⟨token, line⟩ := l
      cases token
      case keyword word =>
        cases word <;> simp only [statement, Phrase.statement, none_expression, hi]
      all_goals simp only [statement, Phrase.statement, none_expression, none_declarations, hi]

theorem none_program (bound : Nat) : none.program bound = Phrase.program bound := by
  rw [program, Phrase.program, none_declarations, none_expression, none_statement]

end Limit

namespace Phrase

variable {α β : Type} {n : Nat}

-- Phrases that read the same where there are fewer lexemes than that. This is what is carried
-- through the grammar, for one phrase at a time, with the number going down at each lexeme.
def Alike (n : Nat) (p q : Phrase α) : Prop :=
  ∀ ls, ls.length < n → p ls = q ls

theorem Orderly.length_le {T : Token → Prop} {p : Phrase α} {ls rest : List Lexeme} {value : α}
    {errors : List ParseError} (h : Orderly T p ls) (hd : p ls = .done value rest errors) :
    rest.length ≤ ls.length := by
  have hl := h.localAt
  obtain ⟨used, rfl, _⟩ := hl rest (by rw [hd]; rfl)
  simp

variable {p q : Phrase α} {next next' : α → Phrase β}

theorem Alike.refl (n : Nat) (p : Phrase α) : Alike n p p :=
  fun _ _ => rfl

theorem Alike.symm (h : Alike n p q) : Alike n q p :=
  fun ls hl => (h ls hl).symm

theorem Alike.bind (h : Alike n p q) (hq : ∀ ls, Orderly (· ≠ .eof) q ls)
    (hn : ∀ value, Alike n (next value) (next' value)) : Alike n (p >>= next) (q >>= next') := by
  intro ls hl
  rw [bind_apply, bind_apply, h ls hl]
  cases hd : q ls
  case done value rest errors =>
    simp only [Reply.andThen]
    rw [hn value rest (Nat.lt_of_le_of_lt ((hq ls).length_le hd) hl)]
  all_goals rfl

theorem Alike.map (h : Alike n p q) (f : α → β) :
    Alike n (do return f (← p) : Phrase β) (do return f (← q)) :=
  fun ls hl => by rw [bind_apply, bind_apply, h ls hl]

theorem Alike.mono {m : Nat} (h : Alike n p q) (hm : m ≤ n) : Alike m p q :=
  fun ls hl => h ls (Nat.lt_of_lt_of_le hl hm)

theorem Alike.behind (h : Alike n p q) (t : Token) (kind : ParseErrorKind) :
    Alike (n + 1) (do expect t kind; p) (do expect t kind; q) := by
  intro ls hl
  cases ls
  case nil => rfl
  case cons l ls =>
    by_cases ht : l.token = t
    case pos =>
      rw [bind_of_done (expect_of_eq ht kind ls), bind_of_done (expect_of_eq ht kind ls)]
      exact h ls (Nat.lt_of_succ_lt_succ hl)
    case neg =>
      simp only [bind_apply, expect, if_neg ht]
      rfl

variable {e e' : Phrase Expr}

theorem Alike.primary (h : Alike n e e') : Alike (n + 1) (primary e) (primary e') := by
  intro ls hl
  cases ls
  case nil => rfl
  case cons l ls =>
    simp only [Phrase.primary]
    split
    case h_3 =>
      simp only [primary.group, bind_apply, h ls (Nat.lt_of_succ_lt_succ hl)]
    all_goals rfl

theorem Alike.unary (h : Alike n e e') : Alike n (unary e) (unary e') := by
  intro ls hl
  induction ls
  case nil => rfl
  case cons l ls hi =>
    simp only [Phrase.unary, hi (Nat.lt_of_succ_lt hl), h (l :: ls) hl]

theorem Alike.assignment (h : Alike n e e') (target : Expr) :
    Alike (n + 1)
      (do
        match ← accept? .equal with
        | none        => return target
        | some equals =>
          let value ← e
          match target with
          | .variable name => return .assign name value
          | _              =>
            note ⟨.invalidAssignmentTarget, equals⟩
            return target : Phrase Expr)
      (do
        match ← accept? .equal with
        | none        => return target
        | some equals =>
          let value ← e'
          match target with
          | .variable name => return .assign name value
          | _              =>
            note ⟨.invalidAssignmentTarget, equals⟩
            return target) := by
  intro ls hl
  cases ls
  case nil => rfl
  case cons l ls =>
    by_cases ht : l.token = .equal
    case pos =>
      rw [bind_of_done (accept?_of_eq ht ls), bind_of_done (accept?_of_eq ht ls)]
      simp only [bind_apply, h ls (Nat.lt_of_succ_lt_succ hl)]
    case neg => rw [bind_of_done (accept?_of_ne ht ls), bind_of_done (accept?_of_ne ht ls)]

variable {s s' : Phrase Stmt}

theorem Alike.declare (h : Alike n e e') (he : ∀ ls, Orderly (· ≠ .eof) e' ls) :
    Alike n (declare e) (declare e') := by
  refine (Alike.refl n expectName).bind (orderly_expectName fun _ => nofun) fun name => ?_
  refine (Alike.refl n (accept? .equal)).bind (orderly_accept? nofun) fun equals? => ?_
  cases equals?
  case none => exact .refl n _
  case some => exact h.bind he fun _ => .refl n _

theorem Alike.declaration (h : Alike n e e') (he : ∀ ls, Orderly (· ≠ .eof) e' ls)
    (hs : Alike n s s') : Alike n (declaration e s) (declaration e' s') := by
  intro ls hl
  cases ls
  case nil => rfl
  case cons l ls =>
    simp only [Phrase.declaration]
    split
    case h_1 => exact h.declare he ls (Nat.lt_of_succ_lt hl)
    case h_2 => exact hs (l :: ls) hl

theorem Alike.recovered (h : Alike n p q) : Alike n (recovered p) (recovered q) :=
  fun ls hl => by rw [Phrase.recovered, Phrase.recovered, h ls hl]

theorem Alike.block {d d' : Phrase (List Stmt)} (h : Alike n d d') : Alike n (block d) (block d') :=
  fun ls hl => by rw [Phrase.block, Phrase.block, bind_apply, bind_apply, h ls hl]

theorem Alike.condition (h : Alike n e e') (he : ∀ ls, Orderly (· ≠ .eof) e' ls)
    {next next' : Expr → Phrase Stmt}
    (hn : ∀ c, Alike n (next c) (next' c)) (kind₁ kind₂ : ParseErrorKind) :
    Alike n (do expect .leftParen kind₁; let c ← e; expect .rightParen kind₂; next c)
      (do expect .leftParen kind₁; let c ← e'; expect .rightParen kind₂; next' c) :=
  Alike.mono (.behind (h.bind he fun c => .mono (.behind (hn c) _ _) n.le_succ) _ _) n.le_succ

theorem Alike.conditional (h : Alike n e e') (he : ∀ ls, Orderly (· ≠ .eof) e' ls)
    (hs : Alike n s s') (ho : ∀ ls, Orderly (· ≠ .eof) s' ls) :
    Alike n (conditional e s) (conditional e' s') := by
  refine h.condition he (fun c => hs.bind ho fun branch => ?_) _ _
  refine (Alike.refl n _).bind (orderly_accept? nofun) fun else? => ?_
  cases else?
  case none => exact .refl n _
  case some => exact hs.map (Stmt.ifElse c branch)

theorem Alike.loop (h : Alike n e e') (he : ∀ ls, Orderly (· ≠ .eof) e' ls) (hs : Alike n s s') :
    Alike n (loop e s) (loop e' s') :=
  h.condition he (fun c => hs.map (Stmt.loop c)) _ _

theorem Alike.print (h : Alike n e e') : Alike n (print e) (print e') :=
  fun ls hl => by rw [Phrase.print, Phrase.print, bind_apply, bind_apply, h ls hl]

theorem Alike.bare (h : Alike n e e') : Alike n (bare e) (bare e') :=
  fun ls hl => by rw [Phrase.bare, Phrase.bare, bind_apply, bind_apply, h ls hl]

end Phrase

namespace Phrase

variable {α : Type} {l : Lexeme} {ls rest : List Lexeme} {errors : List ParseError}

theorem length_lt_of_expect {t : Token} {kind : ParseErrorKind} {value value' : α}
    (h : (do expect t kind; return value : Phrase α) ls = .done value' rest errors) :
    rest.length < ls.length := by
  cases ls
  case nil => contradiction
  case cons l ls =>
    by_cases ht : l.token = t
    case pos =>
      rw [bind_of_done (expect_of_eq ht kind ls)] at h
      cases h
      exact Nat.lt_succ_self _
    case neg =>
      simp only [bind_apply, expect, if_neg ht] at h
      contradiction

theorem length_lt_of_bare {bound : Nat} {stmt : Stmt}
    (h : bare (expression bound) ls = .done stmt rest errors) : rest.length < ls.length := by
  rw [bare, bind_apply] at h
  cases hd : expression bound ls
  case done value rest₁ errors₁ =>
    have hl := (orderly_expression bound ls).length_le hd
    cases hr : (do expect .semicolon .expectedSemicolonAfterExpr; return .expression value :
      Phrase Stmt) rest₁
    case done =>
      simp only [hd, Reply.andThen, hr, Reply.after] at h
      cases h
      exact Nat.lt_of_lt_of_le (length_lt_of_expect hr) hl
    all_goals
      simp only [hd, Reply.andThen, hr, Reply.after] at h
      contradiction
  all_goals
    rw [hd] at h
    contradiction

-- Statements have at least one lexeme, whatever the bound. So the declarations behind one are read
-- with fewer lexemes than there were before it, and their bound can be less by one.
theorem length_le_of_statement {bound : Nat} {stmt : Stmt}
    (h : statement bound (l :: ls) = .done stmt rest errors) : rest.length ≤ ls.length := by
  cases bound
  case zero => contradiction
  case succ bound =>
    have he (ls : List Lexeme) := (orderly_expression bound ls).ne_eof
    have hs := orderly_statement bound
    have hbare (h : bare (expression (bound + 1)) (l :: ls) = .done stmt rest errors) :
        rest.length ≤ ls.length :=
      Nat.le_of_lt_succ (length_lt_of_bare h)
    rw [statement] at h
    cases ht : l.token
    case leftBrace =>
      rw [ht] at h
      exact (orderly_block (orderly_declaration he hs) ls).length_le h
    case keyword word =>
      rw [ht] at h
      cases word
      case ifWord => exact (orderly_conditional he hs ls).length_le h
      case whileWord => exact (orderly_loop he hs ls).length_le h
      case printWord => exact (orderly_print he ls).length_le h
      all_goals exact hbare h
    all_goals
      rw [ht] at h
      exact hbare h

theorem length_le_of_declaration {bound : Nat} {stmt : Stmt}
    (h : declaration (expression bound) (statement bound) (l :: ls) = .done stmt rest errors) :
    rest.length ≤ ls.length := by
  by_cases ht : l.token = .keyword .varWord
  case pos =>
    simp only [declaration, ht] at h
    exact (orderly_declare (fun ls => (orderly_expression bound ls).ne_eof) ls).length_le h
  case neg => exact length_le_of_statement (declaration_of_ne _ _ ht ls ▸ h)

theorem exists_used_of_recovered {bound : Nat} {stmt? : Option Stmt} (hl : ¬l.IsEnd)
    (h : recovered (declaration (expression bound) (statement bound)) (l :: ls) =
      .done stmt? rest errors) :
    ∃ used, l :: ls = used ++ rest ∧ used ≠ [] ∧ ∀ l ∈ used, ¬l.IsEnd := by
  have hd := orderly_declaration (fun ls => (orderly_expression bound ls).ne_eof)
    (orderly_statement bound) (l :: ls)
  have hd := hd.localAt
  rw [recovered] at h
  cases hr : declaration (expression bound) (statement bound) (l :: ls)
  case done stmt rest₁ errors₁ =>
    rw [hr] at h
    cases h
    obtain ⟨used, hu, hn, _⟩ := hd rest (by rw [hr]; rfl)
    refine ⟨used, hu, fun he => ?_, hn⟩
    have hl := length_le_of_declaration hr
    rw [he, List.nil_append] at hu
    rw [← hu, List.length_cons] at hl
    omega
  case failed error left errors₁ =>
    simp only [hr] at h
    cases hs : resume? left
    case none =>
      rw [hs] at h
      contradiction
    case some rest' =>
      rw [hs] at h
      cases h
      obtain ⟨used, hu, hn, _⟩ := hd left (by rw [hr]; rfl)
      obtain ⟨skipped, rfl, hn', he⟩ := resume?_eq_some hs
      refine ⟨used ++ skipped, by rw [hu, List.append_assoc], fun hnil => ?_,
        List.forall_mem_append.mpr ⟨hn, hn'⟩⟩
      obtain ⟨rfl, rfl⟩ := List.append_eq_nil_iff.mp hnil
      rw [List.nil_append, List.nil_append] at hu
      exact hl <| he rfl l <| by rw [List.nil_append, ← hu]; rfl
  case exhausted =>
    rw [hr] at h
    contradiction

def Advances (s : Phrase Stmt) : Prop :=
  ∀ l ls stmt? rest errors, ¬l.IsEnd → recovered s (l :: ls) = .done stmt? rest errors →
    rest.length ≤ ls.length

theorem advances_declaration (bound : Nat) :
    Advances (declaration (expression bound) (statement bound)) := by
  intro l ls stmt? rest errors hl hr
  obtain ⟨used, hu, hn, _⟩ := exists_used_of_recovered hl hr
  have hu := congrArg List.length hu
  have hn := List.length_pos_iff.mpr hn
  simp only [List.length_cons, List.length_append] at hu
  omega

end Phrase

namespace Limit

open Phrase

variable {n : Nat} {e e' : Phrase Expr} (limit : Limit)

theorem chain_eq (level : Level) (h : Alike n e e') (he : ∀ ls, Orderly (· ≠ .eof) e' ls)
    {bound bound' : Nat} (left : Expr) {ls : List Lexeme} (hl : ls.length < n)
    (hb : ls.length ≤ bound) (hb' : ls.length ≤ bound') :
    limit.chain level e bound left ls = Phrase.chain level e' bound' left ls := by
  induction bound generalizing bound' left ls
  case zero =>
    cases List.length_eq_zero_iff.mp (Nat.le_zero.mp hb)
    cases bound' <;> rfl
  case succ bound hi =>
    cases ls
    case nil => cases bound' <;> rfl
    case cons l ls =>
      simp only [List.length_cons] at hl hb hb'
      obtain ⟨bound', rfl⟩ : ∃ k, bound' = k + 1 := ⟨bound' - 1, by omega⟩
      simp only [chain, Phrase.chain, h ls (Nat.lt_of_succ_lt hl)]
      split
      case isFalse => rfl
      case isTrue =>
        cases hd : e' ls
        case done right rest errors =>
          have hr := (he ls).length_le hd
          exact congrArg (Reply.after errors) <|
            hi (level.join left l right) (by omega) (by omega) (by omega)
        all_goals rfl

theorem alike_operation (h : Alike n e e') (he : ∀ ls, Orderly (·.inExpression) e' ls)
    {bound bound' : Nat} (hb : n ≤ bound + 1) (hb' : n ≤ bound' + 1) (levels : List Level) :
    Alike n (limit.operation bound e levels) (Phrase.operation bound' e' levels) := by
  induction levels
  case nil => exact h
  case cons level tighter hi =>
    have ho (ls : List Lexeme) : Orderly (· ≠ .eof) (Phrase.operation bound' e' tighter) ls :=
      (orderly_operation bound' he tighter ls).ne_eof
    exact hi.bind ho fun left ls hl =>
      limit.chain_eq level hi ho left hl (by omega) (by omega)

theorem alike_expression {bound bound' : Nat} (hb : n ≤ bound) (hb' : n ≤ bound') :
    Alike n (limit.expression bound) (Phrase.expression bound') := by
  induction bound generalizing n bound'
  case zero => exact fun ls hl => absurd hl (by omega)
  case succ bound hi =>
    intro ls hl
    obtain ⟨bound', rfl⟩ : ∃ k, bound' = k + 1 := ⟨bound' - 1, by omega⟩
    have he : Alike (n - 1) (limit.expression bound) (Phrase.expression bound') :=
      hi (by omega) (by omega)
    have hn : n = n - 1 + 1 := by omega
    have ho := orderly_unary (orderly_primary (orderly_expression bound'))
    refine Alike.bind ?_ (fun ls => ?_) (fun target => ?_) ls hl
    case refine_1 =>
      exact limit.alike_operation (hn ▸ he.primary.unary) ho hb hb' Level.all
    case refine_2 =>
      exact (orderly_operation bound' ho Level.all ls).ne_eof
    case refine_3 => exact hn ▸ he.assignment target

variable {s s' : Phrase Stmt}

theorem declarations_eq {closes : Token → Bool} (hc : closes .eof) (h : Alike n s s')
    (hs : Advances s') {bound bound' : Nat} {ls : List Lexeme} (hl : ls.length < n)
    (hb : ls.length ≤ bound) (hb' : ls.length ≤ bound') :
    limit.declarations closes s bound ls = Phrase.declarations closes s' bound' ls := by
  induction bound generalizing bound' ls
  case zero =>
    cases List.length_eq_zero_iff.mp (Nat.le_zero.mp hb)
    cases bound' <;> rfl
  case succ bound hi =>
    cases ls
    case nil => cases bound' <;> rfl
    case cons l ls =>
      obtain ⟨bound', rfl⟩ : ∃ k, bound' = k + 1 :=
        ⟨bound' - 1, by simp only [List.length_cons] at hb'; omega⟩
      simp only [declarations, Phrase.declarations, h.recovered (l :: ls) hl]
      split
      case isTrue => rfl
      case isFalse hcl =>
        have hne : ¬l.IsEnd := fun he => hcl <| by rw [he]; exact hc
        cases hd : recovered s' (l :: ls)
        case done stmt? rest errors =>
          -- A round takes at least one lexeme, so both of the smaller bounds reach over the rest.
          have hr := hs l ls stmt? rest errors hne hd
          simp only [List.length_cons] at hl hb hb'
          exact congrArg (fun r => (Reply.andThen r _).after errors) <|
            hi (by omega) (by omega) (by omega)
        all_goals rfl

theorem alike_declaration {bound bound' : Nat} (hb : n ≤ bound) (hb' : n ≤ bound')
    (hs : Alike n (limit.statement bound) (Phrase.statement bound')) :
    Alike n (declaration (limit.expression bound) (limit.statement bound))
      (declaration (Phrase.expression bound') (Phrase.statement bound')) :=
  (limit.alike_expression hb hb').declaration
    (fun ls => (orderly_expression bound' ls).ne_eof) hs

theorem alike_declarations {closes : Token → Bool} (hc : closes .eof)
    {inner inner' bound bound' : Nat} (hi : n ≤ inner) (hi' : n ≤ inner') (hb : n ≤ bound + 1)
    (hb' : n ≤ bound' + 1)
    (hs : Alike n (limit.statement inner) (Phrase.statement inner')) :
    Alike n
      (limit.declarations closes
        (declaration (limit.expression inner) (limit.statement inner)) bound)
      (Phrase.declarations closes
        (declaration (Phrase.expression inner') (Phrase.statement inner')) bound') :=
  fun _ hl => limit.declarations_eq hc (limit.alike_declaration hi hi' hs)
    (advances_declaration inner') hl (by omega) (by omega)

theorem alike_statement {bound bound' : Nat} (hb : n ≤ bound) (hb' : n ≤ bound') :
    Alike n (limit.statement bound) (Phrase.statement bound') := by
  induction bound generalizing n bound'
  case zero => exact fun ls hl => absurd hl (by omega)
  case succ bound hi =>
    intro ls hl
    obtain ⟨bound', rfl⟩ : ∃ k, bound' = k + 1 := ⟨bound' - 1, by omega⟩
    cases ls
    case nil => rfl
    case cons l ls =>
      have he : Alike (n - 1) (limit.expression bound) (Phrase.expression bound') :=
        limit.alike_expression (by omega) (by omega)
      have ho (ls : List Lexeme) : Orderly (· ≠ .eof) (Phrase.expression bound') ls :=
        (orderly_expression bound' ls).ne_eof
      have hs : Alike (n - 1) (limit.statement bound) (Phrase.statement bound') :=
        hi (by omega) (by omega)
      have hbare : bare (limit.expression (bound + 1)) (l :: ls) =
          bare (Phrase.expression (bound' + 1)) (l :: ls) :=
        (limit.alike_expression hb hb').bare (l :: ls) hl
      simp only [List.length_cons] at hl
      rw [statement, Phrase.statement]
      cases l.token
      case leftBrace =>
        have hd : Alike (n - 1) (limit.declarations closesBlock _ bound)
            (Phrase.declarations closesBlock _ bound') :=
          limit.alike_declarations rfl (by omega) (by omega) (by omega) (by omega) hs
        exact hd.block ls (by omega)
      case keyword word =>
        cases word
        case ifWord => exact he.conditional ho hs (orderly_statement bound') ls (by omega)
        case whileWord => exact he.loop ho hs ls (by omega)
        case printWord => exact he.print ls (by omega)
        all_goals exact hbare
      all_goals exact hbare

theorem program_eq {bound bound' : Nat} {ls : List Lexeme} (hb : ls.length < bound)
    (hb' : ls.length < bound') : limit.program bound ls = Phrase.program bound' ls := by
  have hs := limit.alike_statement (Nat.succ_le_of_lt hb) (Nat.succ_le_of_lt hb')
  exact limit.alike_declarations rfl (by omega) (by omega) (by omega) (by omega) hs ls
    (Nat.lt_succ_self _)

end Limit
end Lox
