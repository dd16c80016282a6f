import Lox.Proofs.Syntax.Completeness.Program
import Lox.Proofs.Syntax.Soundness.Program

namespace Lox

def Token.inExpression : Token → Bool
  | literal _ | identifier _ | leftParen | rightParen | keyword .orWord | keyword .andWord
  | bang | bangEqual | equal | equalEqual | greater | greaterEqual | less | lessEqual
  | minus | plus | slash | star => true
  | _ => false

theorem Level.inExpression_of_has {l : Level} {t : Token} (h : l.has t) : t.inExpression := by
  rcases (l.has_iff t).mp h with h | h
  all_goals
    cases l <;> simp only [logicalOperators, binaryOperators, List.mem_cons, List.not_mem_nil,
      or_false] at h
    all_goals rcases h with rfl | rfl | rfl | rfl <;> rfl

theorem Token.ne_eof_of_inExpression {t : Token} (h : t.inExpression) : t ≠ .eof :=
  fun he => by rw [he] at h; contradiction

namespace Phrase

variable {α β : Type}

-- How phrases proceed: each decides by the next lexeme alone, takes lexemes one at a time, and
-- leaves the lexeme that it fails at in place. There is a rule for each such step, which says what
-- is the same for all lexemes behind, so what holds of every phrase is shown by one induction.
inductive Orderly (T : Token → Prop) : {α : Type} → Phrase α → List Lexeme → Prop
  | exhausted {α : Type} {p : Phrase α} {ls : List Lexeme} (h : p ls = .exhausted) : Orderly T p ls
  | done {α : Type} {p : Phrase α} {value : α} {ls : List Lexeme}
    (h : ∀ ls, p ls = .done value ls []) : Orderly T p ls
  | stuck {α : Type} {p : Phrase α} {k : ParseErrorKind} {l : Lexeme} {ls : List Lexeme}
    (h : ∀ ls, p (l :: ls) = .failed ⟨k, l⟩ (l :: ls) []) (hi : k ≠ .invalidAssignmentTarget)
    (hb : k = .expectedRightBraceAfterBlock → l.IsEnd) : Orderly T p (l :: ls)
  | look {α : Type} {p q : Phrase α} {l : Lexeme} {ls : List Lexeme}
    (h : ∀ ls, p (l :: ls) = q (l :: ls)) (hq : Orderly T q (l :: ls)) : Orderly T p (l :: ls)
  | take {α : Type} {p q : Phrase α} {l : Lexeme} {ls : List Lexeme} (hl : T l.token)
    (h : ∀ ls, p (l :: ls) = q ls) (hq : Orderly T q ls) : Orderly T p (l :: ls)
  | bind {α β : Type} {p : Phrase α} {next : α → Phrase β} {ls : List Lexeme} (hp : Orderly T p ls)
    (hn : ∀ value rest errors, p ls = .done value rest errors → Orderly T (next value) rest) :
    Orderly T (p >>= next) ls
  | note {α β : Type} {p : Phrase α} {q : Phrase β} {value : α} {l : Lexeme} {ls : List Lexeme}
    (hl : T l.token) (ht : l.token = .equal)
    (h : ∀ ls, p (l :: ls) =
      (q ls).andThen fun _ rest => .done value rest [⟨.invalidAssignmentTarget, l⟩])
    (hq : Orderly T q ls) : Orderly T p (l :: ls)
  | recovered {α : Type} {p : Phrase α} {ls : List Lexeme} (hT : ∀ t, t ≠ .eof → T t)
    (hp : Orderly T p ls) : Orderly T (recovered p) ls

variable {T : Token → Prop} {p : Phrase α} {ls : List Lexeme}

theorem Orderly.mono {T' : Token → Prop} (hT : ∀ t, T t → T' t) (h : Orderly T p ls) :
    Orderly T' p ls := by
  induction h
  case exhausted h => exact .exhausted h
  case done h => exact .done h
  case stuck h hi hb => exact .stuck h hi hb
  case look h _ hi => exact .look h hi
  case take hl h _ hi => exact .take (hT _ hl) h hi
  case bind hi hi' => exact .bind hi hi'
  case note hl ht h _ hi => exact .note (hT _ hl) ht h hi
  case recovered hT' _ hi => exact .recovered (fun t ht => hT t (hT' t ht)) hi

theorem orderly_pure (value : α) (ls : List Lexeme) : Orderly T (pure value : Phrase α) ls :=
  .done fun _ => rfl

theorem Orderly.map (h : Orderly T p ls) (f : α → β) :
    Orderly T (do return f (← p) : Phrase β) ls :=
  .bind h fun _ rest _ _ => orderly_pure _ rest

theorem orderly_accept? {t : Token} (ht : T t) (ls : List Lexeme) : Orderly T (accept? t) ls := by
  cases ls
  case nil => exact .exhausted rfl
  case cons l ls =>
    by_cases h : l.token = t
    case pos => exact .take (h ▸ ht) (accept?_of_eq h) (orderly_pure (some l) ls)
    case neg => exact .look (accept?_of_ne h) (orderly_pure none (l :: ls))

theorem orderly_expect {t : Token} {kind : ParseErrorKind} (ht : T t)
    (hi : kind ≠ .invalidAssignmentTarget)
    (hb : kind = .expectedRightBraceAfterBlock → ∀ l ∈ ls.head?, l.token ≠ t → l.IsEnd) :
    Orderly T (expect t kind) ls := by
  cases ls
  case nil => exact .exhausted rfl
  case cons l ls =>
    by_cases h : l.token = t
    case pos => exact .take (h ▸ ht) (expect_of_eq h kind) (orderly_pure () ls)
    case neg => exact .stuck (fun ls => if_neg h) hi fun hk => hb hk l rfl h

theorem Orderly.behind {t : Token} {kind : ParseErrorKind} (ht : T t)
    (hk : kind ∉ [.invalidAssignmentTarget, .expectedRightBraceAfterBlock])
    (hp : ∀ ls, Orderly T p ls) (ls : List Lexeme) :
    Orderly T (do expect t kind; p) ls := by
  simp only [List.mem_cons, List.not_mem_nil, or_false, not_or] at hk
  exact .bind (orderly_expect ht hk.left fun h => absurd h hk.right) fun _ rest _ _ => hp rest

theorem orderly_expectName (hT : ∀ name, T (.identifier name)) (ls : List Lexeme) :
    Orderly T expectName ls := by
  cases ls
  case nil => exact .exhausted rfl
  case cons l ls =>
    cases h : l.token
    case identifier name =>
      exact .take (h ▸ hT name) (fun ls => by simp only [expectName, h, pure_apply])
        (orderly_pure l ls)
    all_goals
      exact .stuck (k := .expectedVariableName) (fun ls => by simp only [expectName, h])
        (by decide) fun hk => absurd hk (by decide)

section Expressions

variable {e : Phrase Expr}

theorem orderly_primary (he : ∀ ls, Orderly (·.inExpression) e ls) (ls : List Lexeme) :
    Orderly (·.inExpression) (primary e) ls := by
  cases ls
  case nil => exact .exhausted rfl
  case cons l ls =>
    cases h : l.token
    case literal value =>
      refine .take (by rw [h]; rfl) (fun ls => ?_) (orderly_pure (.literal value) ls)
      simp only [primary, h, pure_apply]
    case identifier =>
      refine .take (by rw [h]; rfl) (fun ls => ?_) (orderly_pure (.variable l) ls)
      simp only [primary, h, pure_apply]
    case leftParen =>
      refine .take (q := primary.group e) (by rw [h]; rfl) (fun ls => by simp only [primary, h]) ?_
      refine .bind (he ls) fun inner rest _ _ => ?_
      exact .behind (by rfl) (by decide) (orderly_pure (Expr.grouping inner)) rest
    all_goals
      exact .stuck (k := .expectedExpression) (fun ls => by simp only [primary, h])
        (by decide) fun hk => absurd hk (by decide)

theorem orderly_unary (he : ∀ ls, Orderly (·.inExpression) e ls) (ls : List Lexeme) :
    Orderly (·.inExpression) (unary e) ls := by
  induction ls
  case nil => exact .exhausted rfl
  case cons l ls hi =>
    by_cases h : isUnaryOperator l.token
    case pos =>
      have ht : l.token.inExpression := by
        cases ho : l.token <;> simp only [ho, isUnaryOperator] at h <;> trivial
      exact .take ht (fun ls => if_pos h) (hi.map (Expr.unary l))
    case neg => exact .look (fun ls => if_neg h) (he (l :: ls))

theorem orderly_chain (level : Level) (he : ∀ ls, Orderly (·.inExpression) e ls) (bound : Nat)
    (left : Expr) (ls : List Lexeme) : Orderly (·.inExpression) (chain level e bound left) ls := by
  induction bound generalizing left ls
  case zero => exact .exhausted rfl
  case succ bound hi =>
    cases ls
    case nil => exact .exhausted rfl
    case cons l ls =>
      by_cases h : level.has l.token
      case pos =>
        refine .take (Level.inExpression_of_has h) (chain_of_has h e bound left) ?_
        exact .bind (he ls) fun right rest _ _ => hi (level.join left l right) rest
      case neg =>
        exact .look (chain_of_not_has (Bool.eq_false_iff.mpr h) e bound left)
          (orderly_pure left (l :: ls))

theorem orderly_operation (bound : Nat) (he : ∀ ls, Orderly (·.inExpression) e ls)
    (levels : List Level) (ls : List Lexeme) :
    Orderly (·.inExpression) (operation bound e levels) ls := by
  induction levels generalizing ls
  case nil => exact he ls
  case cons level tighter hi =>
    exact .bind (hi ls) fun left rest _ _ => orderly_chain level hi bound left rest

theorem orderly_assignment {target : Expr} (he : ∀ ls, Orderly (·.inExpression) e ls)
    (ls : List Lexeme) :
    Orderly (·.inExpression) (do
      match ← accept? .equal with
      | none        => return target
      | some equals =>
        let value ← e
        match target with
        | .variable name => return .assign name value
        | _              =>
          note ⟨.invalidAssignmentTarget, equals⟩
          return target : Phrase Expr) ls := by
  cases ls
  case nil => exact .exhausted rfl
  case cons l ls =>
    by_cases h : l.token = .equal
    case neg =>
      exact .look (q := pure target) (fun ls => by rw [bind_of_done (accept?_of_ne h ls)])
        (orderly_pure target (l :: ls))
    case pos =>
      have ht : l.token.inExpression := by rw [h]; rfl
      cases target
      case «variable» name =>
        refine .take ht (fun ls => ?_) ((he ls).map (.assign name))
        rw [bind_of_done (accept?_of_eq h ls)]
      all_goals
        exact .note ht h (fun ls => (bind_of_done (accept?_of_eq h ls)).trans rfl) (he ls)

theorem orderly_expression (bound : Nat) (ls : List Lexeme) :
    Orderly (·.inExpression) (expression bound) ls := by
  induction bound generalizing ls
  case zero => exact .exhausted rfl
  case succ bound hi =>
    exact .bind (orderly_operation bound (orderly_unary (orderly_primary hi)) Level.all ls)
      fun target rest _ _ => orderly_assignment hi rest

end Expressions

section Statements

theorem Orderly.ne_eof (h : Orderly (·.inExpression) p ls) : Orderly (· ≠ .eof) p ls :=
  h.mono fun _ => Token.ne_eof_of_inExpression

variable {e : Phrase Expr} {s : Phrase Stmt} {d : Phrase (List Stmt)}

theorem orderly_declare (he : ∀ ls, Orderly (· ≠ .eof) e ls) (ls : List Lexeme) :
    Orderly (· ≠ .eof) (declare e) ls := by
  refine .bind (orderly_expectName (fun _ => nofun) ls) fun name rest _ _ => ?_
  refine .bind (orderly_accept? nofun rest) fun equals? rest _ _ => ?_
  cases equals?
  case none =>
    refine .behind nofun ?_ (orderly_pure (Stmt.declare name none)) rest
    decide
  case some =>
    refine .bind (he rest) fun initial rest _ _ => ?_
    refine .behind nofun ?_ (orderly_pure (Stmt.declare name (some initial))) rest
    decide

theorem orderly_declaration (he : ∀ ls, Orderly (· ≠ .eof) e ls)
    (hs : ∀ ls, Orderly (· ≠ .eof) s ls) (ls : List Lexeme) :
    Orderly (· ≠ .eof) (declaration e s) ls := by
  cases ls
  case nil => exact .exhausted rfl
  case cons l ls =>
    by_cases h : l.token = .keyword .varWord
    case pos =>
      exact .take (by rw [h]; nofun) (fun ls => by simp only [declaration, h])
        (orderly_declare he ls)
    case neg => exact .look (declaration_of_ne e s h) (hs (l :: ls))

theorem orderly_declarations (closes : Token → Bool) (hs : ∀ ls, Orderly (· ≠ .eof) s ls)
    (bound : Nat) (ls : List Lexeme) :
    Orderly (· ≠ .eof) (declarations closes s bound) ls := by
  induction bound generalizing ls
  case zero => exact .exhausted rfl
  case succ bound hi =>
    cases ls
    case nil => exact .exhausted rfl
    case cons l ls =>
      by_cases h : closes l.token
      case pos => exact .look (q := pure []) (fun ls => if_pos h) (orderly_pure [] (l :: ls))
      case neg =>
        refine .look (q := do
          let stmt? ← Phrase.recovered s
          let stmts ← declarations closes s bound
          return stmt?.toList ++ stmts) (fun ls => if_neg h) ?_
        refine .bind (.recovered (fun _ => id) (hs (l :: ls))) fun stmt? rest _ _ => ?_
        exact (hi rest).map (stmt?.toList ++ ·)

theorem closes_of_declarations {closes : Token → Bool} {bound : Nat} {rest : List Lexeme}
    {stmts : List Stmt} {errors : List ParseError}
    (h : declarations closes s bound ls = .done stmts rest errors) :
    ∃ l rest', rest = l :: rest' ∧ closes l.token := by
  induction bound generalizing ls stmts rest errors
  case zero => contradiction
  case succ bound hi =>
    cases ls
    case nil => contradiction
    case cons l ls =>
      rw [declarations] at h
      split at h
      case isTrue hc =>
        cases h
        exact ⟨l, ls, rfl, hc⟩
      case isFalse =>
        cases hr : recovered s (l :: ls)
        case failed => exact absurd hr <| recovered_ne_failed _ _ _ _ _
        case exhausted =>
          rw [hr] at h
          contradiction
        case done stmt? rest₁ errors₁ =>
          cases hd : declarations closes s bound rest₁
          case done =>
            simp only [hr, Reply.andThen, hd, Reply.after] at h
            cases h
            exact hi hd
          all_goals
            simp only [hr, Reply.andThen, hd, Reply.after] at h
            contradiction

theorem orderly_block {bound : Nat} (hs : ∀ ls, Orderly (· ≠ .eof) s ls) (ls : List Lexeme) :
    Orderly (· ≠ .eof) (block (declarations closesBlock s bound)) ls := by
  refine .bind (orderly_declarations closesBlock hs bound ls) fun body rest _ hd => ?_
  obtain ⟨l, rest, rfl, hc⟩ := closes_of_declarations hd
  refine .bind (orderly_expect nofun nofun fun _ l' hl hn => ?_) fun _ rest _ _ =>
    orderly_pure (Stmt.block body) rest
  cases Option.mem_some.mp hl
  simpa [closesBlock, hn, Lexeme.IsEnd] using hc

theorem Orderly.condition {kind₁ kind₂ : ParseErrorKind} {next : Expr → Phrase α}
    (h₁ : kind₁ ∉ [.invalidAssignmentTarget, .expectedRightBraceAfterBlock])
    (h₂ : kind₂ ∉ [.invalidAssignmentTarget, .expectedRightBraceAfterBlock])
    (he : ∀ ls, Orderly (· ≠ .eof) e ls) (hn : ∀ c ls, Orderly (· ≠ .eof) (next c) ls)
    (ls : List Lexeme) :
    Orderly (· ≠ .eof)
      (do expect .leftParen kind₁; let c ← e; expect .rightParen kind₂; next c) ls := by
  refine .behind nofun h₁ (fun ls => ?_) ls
  exact .bind (he ls) fun c rest _ _ => .behind nofun h₂ (hn c) rest

theorem orderly_conditional (he : ∀ ls, Orderly (· ≠ .eof) e ls)
    (hs : ∀ ls, Orderly (· ≠ .eof) s ls) (ls : List Lexeme) :
    Orderly (· ≠ .eof) (conditional e s) ls := by
  refine .condition (by decide) (by decide) he (fun c ls => ?_) ls
  refine .bind (hs ls) fun branch rest _ _ => ?_
  refine .bind (orderly_accept? nofun rest) fun else? rest _ _ => ?_
  cases else?
  case none => exact orderly_pure (Stmt.ifThen c branch) rest
  case some => exact (hs rest).map (Stmt.ifElse c branch)

theorem orderly_loop (he : ∀ ls, Orderly (· ≠ .eof) e ls) (hs : ∀ ls, Orderly (· ≠ .eof) s ls)
    (ls : List Lexeme) : Orderly (· ≠ .eof) (loop e s) ls :=
  .condition (by decide) (by decide) he (fun c ls => (hs ls).map (Stmt.loop c)) ls

theorem orderly_print (he : ∀ ls, Orderly (· ≠ .eof) e ls) (ls : List Lexeme) :
    Orderly (· ≠ .eof) (print e) ls := by
  refine .bind (he ls) fun value rest _ _ => ?_
  refine .behind nofun ?_ (orderly_pure (Stmt.print value)) rest
  decide

theorem orderly_bare (he : ∀ ls, Orderly (· ≠ .eof) e ls) (ls : List Lexeme) :
    Orderly (· ≠ .eof) (bare e) ls := by
  refine .bind (he ls) fun value rest _ _ => ?_
  refine .behind nofun ?_ (orderly_pure (Stmt.expression value)) rest
  decide

theorem orderly_statement (bound : Nat) (ls : List Lexeme) :
    Orderly (· ≠ .eof) (statement bound) ls := by
  induction bound generalizing ls
  case zero => exact .exhausted rfl
  case succ bound hi =>
    have he (bound : Nat) (ls : List Lexeme) : Orderly (· ≠ .eof) (expression bound) ls :=
      (orderly_expression bound ls).ne_eof
    cases ls
    case nil => exact .exhausted rfl
    case cons l ls =>
      have hb : (∀ ls, statement (bound + 1) (l :: ls) = bare (expression (bound + 1)) (l :: ls)) →
          Orderly (· ≠ .eof) (statement (bound + 1)) (l :: ls) :=
        fun h => .look h (orderly_bare (he (bound + 1)) (l :: ls))
      cases h : l.token
      case leftBrace =>
        refine .take (by simp [h]) (fun ls => by simp only [statement, h]; rfl) ?_
        exact orderly_block (orderly_declaration (he bound) hi) ls
      case keyword word =>
        have ht : l.token ≠ .eof := by simp [h]
        cases word
        case ifWord =>
          exact .take ht (fun ls => by simp only [statement, h])
            (orderly_conditional (he bound) hi ls)
        case whileWord =>
          exact .take ht (fun ls => by simp only [statement, h]) (orderly_loop (he bound) hi ls)
        case printWord =>
          exact .take ht (fun ls => by simp only [statement, h]) (orderly_print (he bound) ls)
        all_goals exact hb fun ls => by simp only [statement, h]
      all_goals exact hb fun ls => by simp only [statement, h]

theorem orderly_bounded (closes : Token → Bool) (bound : Nat) (ls : List Lexeme) :
    Orderly (· ≠ .eof)
      (declarations closes (declaration (expression bound) (statement bound)) bound) ls :=
  orderly_declarations closes (orderly_declaration (fun ls => (orderly_expression bound ls).ne_eof)
    (orderly_statement bound)) bound ls

end Statements
end Phrase
end Lox
