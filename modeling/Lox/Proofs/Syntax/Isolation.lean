import Lox.Proofs.Syntax.Joining
import Lox.Proofs.Syntax.Rounds

namespace Lox

open List (Forall₂)

namespace Phrase

variable {α β : Type}

structure Fails (p : Phrase α) (ls : List Lexeme) (semicolon : Lexeme) (error : ParseError)
    (left : List Lexeme) (errors : List ParseError) : Prop where
  suffix  : left <:+ ls
  noted   : ∀ e ∈ errors, e.kind = .invalidAssignmentTarget
  eq rest : p (ls ++ semicolon :: rest) = .failed error (left ++ semicolon :: rest) errors

inductive Settles (p : Phrase α) (ls : List Lexeme) (semicolon : Lexeme) : Prop
  | done (value : α) (left : List Lexeme) (errors : List ParseError) (hs : left <:+ ls)
    (hn : ∀ e ∈ errors, e.kind = .invalidAssignmentTarget)
    (h : ∀ rest, p (ls ++ semicolon :: rest) = .done value (left ++ semicolon :: rest) errors)
  | failed {error : ParseError} {left : List Lexeme} {errors : List ParseError}
    (h : p.Fails ls semicolon error left errors)

-- A phrase is over with the semicolon: it has been read and the semicolon was the last of it, or it
-- fails with the semicolon still to come, where recovery will pass it. Only an else behind it could
-- still be taken.
inductive Closes (p : Phrase α) (ls : List Lexeme) (semicolon : Lexeme) : Prop
  | done (value : α) (errors : List ParseError)
    (hn : ∀ e ∈ errors, e.kind = .invalidAssignmentTarget)
    (h : ∀ next rest, next.token ≠ .keyword .elseWord →
      p (ls ++ semicolon :: next :: rest) = .done value (next :: rest) errors)
  | failed {error : ParseError} {left : List Lexeme} {errors : List ParseError}
    (h : p.Fails ls semicolon error left errors)

section Rules

variable {p q : Phrase α} {next : α → Phrase β} {semicolon : Lexeme} {ls left : List Lexeme}

theorem Fails.bind {error : ParseError} {errors : List ParseError}
    (h : p.Fails ls semicolon error left errors) (next : α → Phrase β) :
    (p >>= next).Fails ls semicolon error left errors where
  suffix  := h.suffix
  noted   := h.noted
  eq rest := by simp only [bind_apply, h.eq, Reply.andThen]

theorem Fails.behind {value : α} {error : ParseError} {left' : List Lexeme}
    {errors errors' : List ParseError} (hs : left <:+ ls)
    (hn : ∀ e ∈ errors, e.kind = .invalidAssignmentTarget)
    (hp : ∀ rest, p (ls ++ semicolon :: rest) = .done value (left ++ semicolon :: rest) errors)
    (h : (next value).Fails left semicolon error left' errors') :
    (p >>= next).Fails ls semicolon error left' (errors ++ errors') where
  suffix  := h.suffix.trans hs
  noted   := List.forall_mem_append.mpr ⟨hn, h.noted⟩
  eq rest := by simp only [bind_apply, hp, Reply.andThen, h.eq, Reply.after]

theorem Settles.bind (h : p.Settles ls semicolon)
    (hn : ∀ value left, left <:+ ls → (next value).Settles left semicolon) :
    (p >>= next).Settles ls semicolon := by
  cases h
  case failed h => exact .failed <| h.bind next
  case done value left errors hs he h =>
    cases hn value left hs
    case failed h' => exact .failed <| .behind hs he h h'
    case done value' left' errors' hs' he' h' =>
      refine .done value' left' (errors ++ errors') (hs'.trans hs)
        (List.forall_mem_append.mpr ⟨he, he'⟩) fun rest => ?_
      simp only [bind_apply, h, Reply.andThen, h', Reply.after]

theorem Settles.closes (h : p.Settles ls semicolon)
    (hn : ∀ value left, left <:+ ls → (next value).Closes left semicolon) :
    (p >>= next).Closes ls semicolon := by
  cases h
  case failed h => exact .failed <| h.bind next
  case done value left errors hs he h =>
    cases hn value left hs
    case failed h' => exact .failed <| .behind hs he h h'
    case done value' errors' he' h' =>
      refine .done value' (errors ++ errors') (List.forall_mem_append.mpr ⟨he, he'⟩)
        fun l rest hl => ?_
      simp only [bind_apply, h, Reply.andThen, h' l rest hl, Reply.after]

theorem Closes.bind (h : p.Closes ls semicolon) (f : α → β)
    (hn : ∀ value l rest, l.token ≠ .keyword .elseWord →
      next value (l :: rest) = .done (f value) (l :: rest) []) :
    (p >>= next).Closes ls semicolon := by
  cases h
  case failed h => exact .failed <| h.bind next
  case done value errors he h =>
    refine .done (f value) errors he fun l rest hl => ?_
    simp only [bind_apply, h l rest hl, Reply.andThen, hn value l rest hl, Reply.after,
      List.append_nil]

theorem Closes.behind (used : List Lexeme) (h : q.Closes ls semicolon)
    (he : ∀ rest, p (used ++ ls ++ semicolon :: rest) = q (ls ++ semicolon :: rest)) :
    p.Closes (used ++ ls) semicolon := by
  cases h
  case done value errors hn h =>
    exact .done value errors hn fun l rest hl => (he _).trans (h l rest hl)
  case failed h =>
    have hs := h.suffix.trans (List.suffix_append used ls)
    exact .failed ⟨hs, h.noted, fun rest => (he rest).trans (h.eq rest)⟩

end Rules

theorem exists_left {T : Token → Prop} {l : Lexeme} (hl : ¬T l.token)
    {ls tail used rest : List Lexeme} (h : ls ++ l :: tail = used ++ rest)
    (hu : ∀ l ∈ used, T l.token) : ∃ left, ls = used ++ left ∧ rest = left ++ l :: tail := by
  rcases List.append_eq_append_iff.mp h with ⟨as, rfl, ha⟩ | ⟨left, hl, hr⟩
  case inr => exact ⟨left, hl, hr⟩
  case inl =>
    cases as
    case nil => exact ⟨[], by rw [List.append_nil, List.append_nil], ha.symm⟩
    case cons l' as =>
      obtain ⟨rfl, _⟩ := List.cons_eq_cons.mp ha
      exact absurd (hu l <| List.mem_append_right ls List.mem_cons_self) hl

section Phrases

variable {p : Phrase α} {semicolon : Lexeme} {ls : List Lexeme}

theorem settles_of_localAt {T : Token → Prop} (hT : ¬T semicolon.token) (eof : Lexeme)
    (hl : LocalAt T p (ls ++ [semicolon, eof])) (hx : p (ls ++ [semicolon, eof]) ≠ .exhausted)
    (hn : ∀ e ∈ (p (ls ++ [semicolon, eof])).errors, e.kind = .invalidAssignmentTarget) :
    p.Settles ls semicolon := by
  cases hr : p (ls ++ [semicolon, eof])
  case exhausted => exact absurd hr hx
  all_goals
    obtain ⟨used, he, ht, hl⟩ := hl _ (by rw [hr]; rfl)
    obtain ⟨left, rfl, rfl⟩ := exists_left hT he ht
    rw [hr] at hn hl
    replace hl (rest : List Lexeme) := hl (left ++ semicolon :: rest) (by cases left <;> rfl)
    simp only [← List.append_assoc] at hl
  case done value errors _ => exact .done value left errors (List.suffix_append used left) hn hl
  case failed error _ errors => exact .failed ⟨List.suffix_append used left, hn, hl⟩

theorem settles_of_orderly (hs : semicolon.token = .semicolon)
    (h : ∀ ls, Orderly (· ≠ .semicolon) p ls) (hx : ∀ l ls, p (l :: ls) ≠ .exhausted) :
    p.Settles ls semicolon := by
  have h := h (ls ++ [semicolon, semicolon])
  refine settles_of_localAt (fun hn => hn hs) semicolon h.localAt ?_ fun _ =>
    h.kind_of_noted fun hn => hn rfl
  cases ls <;> exact hx _ _

theorem settles_accept? (hs : semicolon.token = .semicolon) {t : Token} (ht : t ≠ .semicolon) :
    (accept? t).Settles ls semicolon := by
  refine settles_of_orderly hs (orderly_accept? ht) fun l ls => ?_
  by_cases h : l.token = t
  case pos => rw [accept?_of_eq h]; nofun
  case neg => rw [accept?_of_ne h]; nofun

theorem settles_expect (hs : semicolon.token = .semicolon) {t : Token} (ht : t ≠ .semicolon)
    {kind : ParseErrorKind}
    (hk : kind ∉ [.invalidAssignmentTarget, .expectedRightBraceAfterBlock]) :
    (expect t kind).Settles ls semicolon := by
  simp only [List.mem_cons, List.not_mem_nil, or_false, not_or] at hk
  have ho (ls : List Lexeme) : Orderly (· ≠ .semicolon) (expect t kind) ls :=
    orderly_expect ht hk.left fun h => absurd h hk.right
  refine settles_of_orderly hs ho fun l ls => ?_
  rw [expect]
  split <;> simp

theorem settles_expectName (hs : semicolon.token = .semicolon) :
    expectName.Settles ls semicolon := by
  refine settles_of_orderly hs (orderly_expectName fun _ => nofun) fun l ls => ?_
  rw [expectName]
  split <;> simp

theorem settles_expression (hs : semicolon.token = .semicolon) :
    Unbounded.expression.Settles ls semicolon := by
  have hn : ¬semicolon.token.inExpression := by rw [hs]; nofun
  let eof : Lexeme := ⟨.eof, "", 0⟩
  refine settles_of_localAt hn eof (Unbounded.localAt_expression _) ?_ fun e => ?_
  case refine_1 =>
    have h := reads_expression _ (ls ++ [semicolon, eof]) (Nat.lt_succ_self _)
    intro hx
    rw [Unbounded.expression] at hx
    rw [hx] at h
    generalize hl : ls ++ [semicolon, eof] = ls' at h
    cases h
    case exhausted h => exact h eof (by rw [← hl]; simp) rfl
  case refine_2 => exact (orderly_expression _ _).kind_of_noted nofun

def Plain (ls : List Lexeme) : Prop :=
  ∀ l ∈ ls, l.token ∉ [.semicolon, .leftBrace, .rightBrace, .eof]

theorem Plain.of_suffix {left : List Lexeme} (h : Plain ls) (hs : left <:+ ls) : Plain left :=
  fun l hl => h l (hs.subset hl)

variable {β : Type} {kind kind₁ kind₂ : ParseErrorKind} {next : Expr → Phrase Stmt}

theorem closes_semicolon (hs : semicolon.token = .semicolon) (h : Plain ls) (value : β) :
    (do expect .semicolon kind; return value : Phrase β).Closes ls semicolon := by
  cases ls
  case nil =>
    have hn : ∀ e ∈ [], ParseError.kind e = .invalidAssignmentTarget := List.forall_mem_nil _
    exact .done value [] hn fun _ _ _ => bind_of_done (expect_of_eq hs _ _)
  case cons l ls =>
    have hl : l.token ≠ .semicolon := fun he => h l List.mem_cons_self (by simp [he])
    have he (rest : List Lexeme) :=
      expect_bind_of_ne hl kind (pure value : Phrase β) (ls ++ semicolon :: rest)
    exact .failed ⟨List.suffix_refl _, List.forall_mem_nil _, he⟩

theorem closes_print (hs : semicolon.token = .semicolon) (h : Plain ls) :
    (print Unbounded.expression).Closes ls semicolon :=
  (settles_expression hs).closes fun value _ hl =>
    closes_semicolon hs (h.of_suffix hl) (Stmt.print value)

theorem closes_bare (hs : semicolon.token = .semicolon) (h : Plain ls) :
    (bare Unbounded.expression).Closes ls semicolon :=
  (settles_expression hs).closes fun value _ hl =>
    closes_semicolon hs (h.of_suffix hl) (Stmt.expression value)

theorem closes_declare (hs : semicolon.token = .semicolon) (h : Plain ls) :
    (declare Unbounded.expression).Closes ls semicolon := by
  refine (settles_expectName hs).closes fun name ls₁ h₁ => ?_
  refine (settles_accept? hs (by decide)).closes fun equals? ls₂ h₂ => ?_
  have h := (h.of_suffix h₁).of_suffix h₂
  cases equals?
  case none => exact closes_semicolon hs h (Stmt.declare name none)
  case some =>
    refine (settles_expression hs).closes fun value left hl => ?_
    exact closes_semicolon hs (h.of_suffix hl) (Stmt.declare name (some value))

theorem closes_condition (hs : semicolon.token = .semicolon)
    (hk₁ : kind₁ ∉ [.invalidAssignmentTarget, .expectedRightBraceAfterBlock])
    (hk₂ : kind₂ ∉ [.invalidAssignmentTarget, .expectedRightBraceAfterBlock])
    (hn : ∀ c left, left <:+ ls → (next c).Closes left semicolon) :
    (do
      expect .leftParen kind₁
      let c ← Unbounded.expression
      expect .rightParen kind₂
      next c).Closes ls semicolon := by
  refine (settles_expect hs (by decide) hk₁).closes fun _ ls₁ h₁ => ?_
  refine (settles_expression hs).closes fun c ls₂ h₂ => ?_
  refine (settles_expect hs (by decide) hk₂).closes fun _ ls₃ h₃ => ?_
  exact hn c ls₃ <| h₃.trans <| h₂.trans h₁

variable {s : Phrase Stmt}

theorem closes_conditional (hs : semicolon.token = .semicolon)
    (h : ∀ left, left <:+ ls → s.Closes left semicolon) :
    (conditional Unbounded.expression s).Closes ls semicolon := by
  refine closes_condition hs (by decide) (by decide) fun c left hl => ?_
  refine (h left hl).bind (Stmt.ifThen c) fun branch l rest he => ?_
  rw [bind_of_done (accept?_of_ne he rest)]
  rfl

theorem closes_loop (hs : semicolon.token = .semicolon)
    (h : ∀ left, left <:+ ls → s.Closes left semicolon) :
    (loop Unbounded.expression s).Closes ls semicolon := by
  refine closes_condition hs (by decide) (by decide) fun c left hl => ?_
  exact (h left hl).bind (Stmt.loop c) fun _ _ _ _ => rfl

theorem closes_statement (hs : semicolon.token = .semicolon) (h : Plain ls) :
    Unbounded.statement.Closes ls semicolon := by
  induction hn : ls.length using Nat.strongRecOn generalizing ls
  case ind n hi =>
    subst hn
    cases ls
    case nil =>
      refine .behind [] (closes_bare hs h) fun rest => ?_
      rw [List.append_nil, List.nil_append, Unbounded.statement_cons, hs]
    case cons l ls =>
      have hp := h.of_suffix (List.suffix_cons l ls)
      -- However the statement begins, its parts are read from shorter lists that are plain too.
      have hi (left : List Lexeme) (hl : left <:+ ls) : Unbounded.statement.Closes left semicolon :=
        hi left.length (Nat.lt_succ_of_le hl.length_le) (hp.of_suffix hl) rfl
      have hb (he : ∀ ls, Unbounded.statement (l :: ls) = bare Unbounded.expression (l :: ls)) :
          Unbounded.statement.Closes (l :: ls) semicolon :=
        .behind [] (closes_bare hs h) fun _ => he _
      cases ht : l.token
      case leftBrace => exact absurd (ht ▸ h l List.mem_cons_self) (by decide)
      case keyword word =>
        cases word
        case ifWord =>
          exact .behind [l] (closes_conditional hs hi) fun rest => by
            simp only [List.cons_append, Unbounded.statement_cons, ht]; rfl
        case whileWord =>
          exact .behind [l] (closes_loop hs hi) fun rest => by
            simp only [List.cons_append, Unbounded.statement_cons, ht]; rfl
        case printWord =>
          exact .behind [l] (closes_print hs hp) fun rest => by
            simp only [List.cons_append, Unbounded.statement_cons, ht]; rfl
        all_goals exact hb fun rest => by simp only [Unbounded.statement_cons, ht]
      all_goals exact hb fun rest => by simp only [Unbounded.statement_cons, ht]

theorem closes_declaration (hs : semicolon.token = .semicolon) (h : Plain ls) :
    (declaration Unbounded.expression Unbounded.statement).Closes ls semicolon := by
  cases ls
  case nil =>
    refine .behind [] (closes_statement hs h) fun rest => ?_
    exact declaration_of_ne _ _ (by rw [hs]; nofun) rest
  case cons l ls =>
    by_cases ht : l.token = .keyword .varWord
    case pos =>
      refine .behind [l] (closes_declare hs <| h.of_suffix <| List.suffix_cons l ls) fun rest => ?_
      simp only [List.cons_append, declaration, ht]
      rfl
    case neg => exact .behind [] (closes_statement hs h) fun rest => declaration_of_ne _ _ ht _

end Phrases

theorem resume?_of_plain {left rest : List Lexeme} {semicolon : Lexeme}
    (hs : semicolon.token = .semicolon) (hp : Plain left)
    (ha : ∀ l ∈ left.tail, l.token.startsStatement = false) :
    resume? (left ++ semicolon :: rest) = some rest := by
  induction left
  case nil => simp only [List.nil_append, resume?, hs]
  case cons l left hi =>
    have hl := hp l List.mem_cons_self
    have hi := hi (hp.of_suffix (List.suffix_cons l left)) fun l hl =>
      ha l (List.mem_of_mem_tail hl)
    rw [List.cons_append]
    unfold resume?
    split
    case h_1 ht | h_2 ht => simp [ht] at hl
    case h_3 =>
      cases left
      case nil =>
        have hn : semicolon.token.startsStatement = false := by rw [hs]; rfl
        simp only [List.nil_append, hn] at hi ⊢
        exact hi
      case cons next left _ =>
        simp only [List.cons_append, ha next List.mem_cons_self] at hi ⊢
        exact hi

end Phrase

-- One statement of any kind, whether it is right or not. Nothing in it looks like the beginning of
-- another statement, and its only semicolon, at the end, is not within braces.
structure Fragment (ls : List Lexeme) : Prop where
  ends  : ∃ before semicolon, ls = before ++ [semicolon] ∧ semicolon.token = .semicolon ∧
    Phrase.Plain before
  first : ∀ l ∈ ls.head?, l.token ≠ .keyword .elseWord
  alone : ∀ l ∈ ls.tail, l.token.startsStatement = false

theorem tail_suffix_tail {α : Type} {ls ls' : List α} (h : ls <:+ ls') : ls.tail <:+ ls'.tail := by
  cases ls'
  case nil => exact List.suffix_nil.mp h ▸ List.suffix_refl _
  case cons a ls' =>
    obtain rfl | h := List.suffix_cons_iff.mp h
    case inl => exact List.suffix_refl _
    case inr => exact (List.tail_suffix ls).trans h

theorem Fragment.exists_round {ls : List Lexeme} (h : Fragment ls) :
    ∃ stmt? errors,
      (∀ next rest, next.token ≠ .keyword .elseWord →
        Phrase.Unbounded.round (ls ++ next :: rest) = .done stmt? (next :: rest) errors) ∧
      (errors.filter (·.kind ≠ .invalidAssignmentTarget)).length ≤ 1 ∧
      ((∃ e ∈ errors, e.kind ≠ .invalidAssignmentTarget) → stmt? = none) := by
  obtain ⟨before, semicolon, rfl, hs, hp⟩ := h.ends
  cases Phrase.closes_declaration hs hp
  case done stmt errors hn h =>
    refine ⟨some stmt, errors, fun next rest hl => ?_, ?_, fun ⟨e, he, hk⟩ => absurd (hn e he) hk⟩
    case refine_1 =>
      rw [List.append_assoc, Phrase.Unbounded.round, Phrase.recovered]
      simp only [List.singleton_append, h next rest hl]
    case refine_2 =>
      rw [List.filter_eq_nil_iff.mpr fun e he => by simp [hn e he]]
      exact Nat.zero_le 1
  case failed error left errors hf =>
    refine ⟨none, errors ++ [error], fun next rest hl => ?_, ?_, fun _ => rfl⟩
    case refine_1 =>
      have ha (l : Lexeme) (hl : l ∈ left.tail) : l.token.startsStatement = false := by
        refine h.alone l ?_
        have hl := (tail_suffix_tail hf.suffix).subset hl
        cases before
        case nil => contradiction
        case cons => exact List.mem_append_left _ hl
      have hr : Phrase.resume? (left ++ semicolon :: next :: rest) = some (next :: rest) :=
        Phrase.resume?_of_plain hs (hp.of_suffix hf.suffix) ha
      rw [List.append_assoc, Phrase.Unbounded.round, Phrase.recovered]
      simp only [List.singleton_append, hf.eq, hr]
    case refine_2 =>
      rw [List.filter_append, List.filter_eq_nil_iff.mpr fun e he => by simp [hf.noted e he]]
      exact List.length_filter_le (·.kind ≠ .invalidAssignmentTarget) [error]

namespace Fragment

variable {ls start rest rest' : List Lexeme}

theorem exists_cons (h : Fragment ls) :
    ∃ l ls', ls = l :: ls' ∧ l.token ∉ [.rightBrace, .eof] ∧ l.token ≠ .keyword .elseWord := by
  obtain ⟨before, semicolon, rfl, hs, hp⟩ := h.ends
  cases before
  case nil => exact ⟨semicolon, [], rfl, by rw [hs]; decide, by rw [hs]; nofun⟩
  case cons l before =>
    have hl := hp l List.mem_cons_self
    simp only [List.mem_cons, List.not_mem_nil, or_false, not_or] at hl ⊢
    exact ⟨l, before ++ [semicolon], rfl, hl.right.right, h.first l rfl⟩

theorem declarations_eq (h : Fragment ls) {closes : Token → Bool} (he : closes .eof)
    (hc : ∀ t, t ∉ [.rightBrace, .eof] → closes t = false) {stmt? : Option Stmt} {next : Lexeme}
    {errors errors' : List ParseError} {stmts later : List Stmt}
    (hr : Phrase.Unbounded.round (ls ++ next :: rest) = .done stmt? (next :: rest) errors)
    (hw : ∀ stmt ∈ stmts, stmt.WellFormed) (hf : Forall₂ Terminal.Fits (Stmt.yields stmts) start)
    (hd : Phrase.Unbounded.declarations closes (next :: rest) = .done later rest' errors') :
    Phrase.Unbounded.declarations closes (start ++ ls ++ next :: rest) =
      .done (stmts ++ stmt?.toList ++ later) rest' (errors ++ errors') := by
  obtain ⟨l, ls', rfl, hl, hn⟩ := h.exists_cons
  rw [List.cons_append] at hr
  rw [List.append_assoc, List.cons_append,
    Phrase.Unbounded.declarations_of_yields he hc hw hf hn,
    Phrase.Unbounded.declarations_of_round he (hc _ hl) hr, hd]
  simp only [Reply.following, Reply.after, List.append_assoc]

end Fragment

variable {start ls later : List Lexeme} {opening closing eof eof₁ eof₂ : Lexeme} {parsed : Parsed}

theorem exists_next (hf : ∀ l ∈ later.head?, l.token ≠ .keyword .elseWord) {l : Lexeme}
    (h : l.token ≠ .keyword .elseWord) (rest : List Lexeme) :
    ∃ next rest', later ++ l :: rest = next :: rest' ∧ next.token ≠ .keyword .elseWord := by
  cases later
  case nil => exact ⟨l, rest, rfl, h⟩
  case cons next later => exact ⟨next, later ++ l :: rest, rfl, hf next rfl⟩

-- What is behind the fragment is read as if it came first, and what is before it as if nothing
-- followed. The fragment itself is read the same alone, in a program and in a block.
theorem parse?_isolates (hp : parse? (start ++ [eof₁]) = some parsed) (hn : parsed.errors = [])
    (hs : ∀ l ∈ start, ¬l.IsEnd) (he₁ : eof₁.IsEnd) (h : Fragment ls) (he₂ : eof₂.IsEnd)
    (hl : ∀ l ∈ later, ¬l.IsEnd) (hf : ∀ l ∈ later.head?, l.token ≠ .keyword .elseWord)
    (he : eof.IsEnd) (ho : opening.token = .leftBrace) (hc : closing.token = .rightBrace) :
    ∃ parsed' parsed'', parse? (ls ++ [eof₂]) = some parsed' ∧
      parse? (later ++ [eof]) = some parsed'' ∧
      parse? (start ++ ls ++ later ++ [eof]) = some {
        statements := parsed.statements ++ parsed'.statements ++ parsed''.statements
        errors := parsed'.errors ++ parsed''.errors } ∧
      parsed'.statements.length ≤ 1 ∧
      (parsed'.errors.filter (·.kind ≠ .invalidAssignmentTarget)).length ≤ 1 ∧
      ((∃ e ∈ parsed'.errors, e.kind ≠ .invalidAssignmentTarget) → parsed'.statements = []) ∧
      (parsed''.errors = [] →
        parse? (opening :: (start ++ ls ++ later) ++ [closing, eof]) = some {
          statements :=
            [.block (parsed.statements ++ parsed'.statements ++ parsed''.statements)]
          errors := parsed'.errors }) := by
  have ⟨hw, hy⟩ := fits_of_no_errors hp hs he₁ hn
  obtain ⟨stmt?, errors, hr, hk, hd⟩ := h.exists_round
  obtain ⟨stmts, errors', hd'⟩ := Phrase.exists_program hl he []
  have hp' : parse? (later ++ [eof]) = some ⟨stmts, errors'⟩ := parse?_eq_some_iff.mpr ⟨[eof], hd'⟩
  refine ⟨⟨stmt?.toList, errors⟩, ⟨stmts, errors'⟩, ?alone, hp', ?program, ?_, hk,
    fun hs => by rw [hd hs]; rfl, fun hn' => ?block⟩
  case alone =>
    have hr := hr eof₂ [] (by rw [he₂]; nofun)
    have hd := h.declarations_eq (by rfl) (fun _ => Phrase.closesProgram_eq_false) hr
      (List.forall_mem_nil _) .nil (Phrase.Unbounded.declarations_of_isEnd he₂ [])
    simp only [List.nil_append, List.append_nil] at hd
    exact parse?_eq_some_iff.mpr ⟨[eof₂], hd⟩
  case program =>
    obtain ⟨next, rest, hl, hn⟩ := exists_next hf (by rw [he]; nofun : eof.token ≠ _) []
    rw [hl] at hd'
    rw [List.append_assoc, hl]
    exact parse?_eq_some_iff.mpr ⟨[eof], h.declarations_eq (by rfl)
      (fun _ => Phrase.closesProgram_eq_false) (hr next rest hn) hw hy hd'⟩
  case block =>
    have ⟨hw', hy'⟩ := fits_of_no_errors hp' hl he hn'
    obtain ⟨next, rest, hl, hn⟩ := exists_next hf (by rw [hc]; nofun : closing.token ≠ _) [eof]
    have hd' : Phrase.Unbounded.declarations Phrase.closesBlock (later ++ closing :: [eof]) = _ :=
      Phrase.Unbounded.declarations_of_yields rfl (fun _ => Phrase.closesBlock_eq_false) hw' hy'
        (by rw [hc]; nofun) [eof]
    rw [Phrase.Unbounded.declarations_of_closes (by rw [hc]; rfl), hl] at hd'
    have hd := h.declarations_eq rfl (fun _ => Phrase.closesBlock_eq_false) (hr next rest hn) hw hy
      hd'
    have hl : opening :: (start ++ ls ++ later) ++ [closing, eof] =
        opening :: (start ++ ls ++ next :: rest) := by
      simp only [List.cons_append, List.append_assoc, hl]
    simp only [List.append_nil] at hd
    rw [hl, parse?_of_block ho hc he hd]
  case _ => cases stmt? <;> simp

theorem parse?_isolates_behind_target :
    let l (t : Token) : Lexeme := ⟨t, "", 1⟩
    let start : List Lexeme := [l (.identifier "x"), l .semicolon]
    let ls : List Lexeme := [l (.keyword .printWord), l (.identifier "a"), l .plus,
      l (.identifier "b"), l .equal, l (.identifier "c"), l .rightParen, l (.identifier "d"),
      l .semicolon]
    let later : List Lexeme := [l (.keyword .printWord), l (.identifier "e"), l .semicolon]
    let parsed : Parsed := ⟨[.expression (.variable (l (.identifier "x")))], []⟩
    parse? (start ++ [l .eof]) = some parsed ∧ (∀ l ∈ start, ¬l.IsEnd) ∧ Fragment ls ∧
      (∀ l ∈ later, ¬l.IsEnd) ∧ (∀ l ∈ later.head?, l.token ≠ .keyword .elseWord) ∧
      ∃ parsed' parsed'', parse? (ls ++ [l .eof]) = some parsed' ∧
        parse? (later ++ [l .eof]) = some parsed'' ∧
        parse? (start ++ ls ++ later ++ [l .eof]) = some {
          statements := parsed.statements ++ parsed'.statements ++ parsed''.statements
          errors := parsed'.errors ++ parsed''.errors } ∧
        parsed'.statements.length ≤ 1 ∧
        (parsed'.errors.filter (·.kind ≠ .invalidAssignmentTarget)).length ≤ 1 ∧
        ((∃ e ∈ parsed'.errors, e.kind ≠ .invalidAssignmentTarget) → parsed'.statements = []) ∧
        (parsed''.errors = [] →
          parse? (l .leftBrace :: (start ++ ls ++ later) ++ [l .rightBrace, l .eof]) = some {
            statements :=
              [.block (parsed.statements ++ parsed'.statements ++ parsed''.statements)]
            errors := parsed'.errors }) := by
  intro l start ls later parsed
  have hp : parse? (start ++ [l .eof]) = some parsed := rfl
  have hs : ∀ l ∈ start, ¬l.IsEnd := by decide
  have hb : Fragment ls := {
    ends  := ⟨ls.dropLast, l .semicolon, rfl, rfl, by unfold Phrase.Plain; decide⟩
    first := by decide
    alone := by decide }
  have hl : ∀ l ∈ later, ¬l.IsEnd := by decide
  have hf : ∀ l ∈ later.head?, l.token ≠ .keyword .elseWord := by decide
  exact ⟨hp, hs, hb, hl, hf, parse?_isolates hp rfl hs rfl hb rfl hl hf rfl rfl rfl⟩

end Lox
