import Lox.Proofs.Syntax.Soundness.Expression

namespace Lox

open List (Forall₂)

namespace Stmt

theorem yield_ne_nil (stmt : Stmt) : stmt.yield ≠ [] := by
  cases stmt
  case declare initial => cases initial <;> simp [yield]
  all_goals simp [yield]

-- What is said of a statement that was read. An else that follows a statement is never one that the
-- statement would have taken, which is what keeps branches well-formed.
structure Sound (stmt : Stmt) (used rest : List Lexeme) (errors : List ParseError) : Prop where
  wellFormed  : stmt.WellFormed
  kept        : Kept stmt.yield used errors
  undeclaring : stmt.isDeclaration = false
  closed      : stmt.endsOpen → ∀ l ∈ rest.head?, l.token ≠ .keyword .elseWord

end Stmt

namespace Phrase

variable {α : Type} {bound : Nat}

theorem reads_condition {Q : Reply.Outcome α} {next : Expr → Phrase α}
    {kind₁ kind₂ : ParseErrorKind} {ls : List Lexeme} (hb : ls.length < bound)
    (hn : ∀ condition opening used closing rest errors, ls = opening :: (used ++ closing :: rest) →
      opening.token = .leftParen → condition.Derives .assignment →
      Kept condition.yield used errors → closing.token = .rightParen →
      (next condition rest).Reads (fun value used' rest' errors' =>
        Q value (opening :: (used ++ closing :: used')) rest' (errors ++ errors')) rest) :
    ((do
      expect .leftParen kind₁
      let condition ← expression bound
      expect .rightParen kind₂
      next condition : Phrase α) ls).Reads Q ls := by
  refine reads_expect (t := .leftParen) nofun fun opening ls₁ hl₁ ho => ?_
  subst hl₁
  refine reads_bind (reads_expression bound ls₁ (Nat.lt_of_succ_lt hb))
    fun c used ls₂ errors hl₂ ⟨hd, hk⟩ => ?_
  refine reads_expect (t := .rightParen) nofun fun closing rest hl₃ hc => ?_
  subst hl₂ hl₃
  refine (hn c opening used closing rest errors rfl ho hd hk hc).imp fun _ _ _ _ _ h => ?_
  simpa using h

theorem reads_print {keyword : Lexeme} (hk : keyword.token = .keyword .printWord)
    {ls : List Lexeme} (hb : ls.length < bound) :
    (print (expression bound) ls).Reads (fun stmt used => stmt.Sound (keyword :: used)) ls := by
  refine reads_bind (reads_expression bound ls hb) fun value used rest errors _ ⟨hd, hv⟩ => ?_
  refine reads_expect (t := .semicolon) nofun fun semicolon rest _ hs => ?_
  have h := (Kept.free hk).append <| hv.append <| .free hs
  exact .still ⟨.print hd, by simpa [Stmt.yield] using h, rfl, nofun⟩

theorem reads_bare {ls : List Lexeme} (hb : ls.length < bound) :
    (bare (expression bound) ls).Reads Stmt.Sound ls := by
  refine reads_bind (reads_expression bound ls hb) fun value used rest errors _ ⟨hd, hv⟩ => ?_
  refine reads_expect (t := .semicolon) nofun fun semicolon rest _ hs => ?_
  exact .still ⟨.expression hd, by simpa [Stmt.yield] using hv.append <| .free hs, rfl, nofun⟩

theorem reads_loop {keyword : Lexeme} (hk : keyword.token = .keyword .whileWord)
    (hs : ∀ ls, ls.length < bound → (statement bound ls).Reads Stmt.Sound ls)
    {ls : List Lexeme} (hb : ls.length < bound) :
    (loop (expression bound) (statement bound) ls).Reads
      (fun stmt used => stmt.Sound (keyword :: used)) ls := by
  refine reads_condition hb fun c opening used closing rest errors hl ho hd hc hcl => ?_
  have hr : rest.length < bound := by
    simp only [hl, List.length_cons, List.length_append] at hb
    omega
  refine reads_bind (hs rest hr) fun body used' rest' errors' _ h => ?_
  have hy := (Kept.free hk).append <| (Kept.free ho).append <| hc.append <|
    (Kept.free hcl).append h.kept
  exact .still ⟨.loop hd h.wellFormed h.undeclaring, by simpa [Stmt.yield] using hy, rfl, h.closed⟩

theorem reads_conditional {keyword : Lexeme} (hk : keyword.token = .keyword .ifWord)
    (hs : ∀ ls, ls.length < bound → (statement bound ls).Reads Stmt.Sound ls)
    {ls : List Lexeme} (hb : ls.length < bound) :
    (conditional (expression bound) (statement bound) ls).Reads
      (fun stmt used => stmt.Sound (keyword :: used)) ls := by
  refine reads_condition hb fun c opening used closing rest errors hl ho hd hc hcl => ?_
  have hr : rest.length < bound := by
    simp only [hl, List.length_cons, List.length_append] at hb
    omega
  refine reads_bind (hs rest hr) fun branch used₁ rest₁ errors₁ hl₁ h₁ => ?_
  have hy := (Kept.free hk).append <| (Kept.free ho).append <| hc.append <|
    (Kept.free hcl).append h₁.kept
  refine reads_bind (reads_accept? (t := .keyword .elseWord) nofun rest₁)
    fun l? used₂ rest₂ errors₂ hl₂ h => ?_
  cases l?
  case none =>
    have ⟨he, hu, hn⟩ := h
    subst he hu hl₂
    exact .still ⟨.ifThen hd h₁.wellFormed h₁.undeclaring, by simpa [Stmt.yield] using hy, rfl,
      fun _ => hn⟩
  case some separator =>
    obtain ⟨he, hu, ht⟩ := h
    subst he hu hl₂
    have hr₂ : rest₂.length < bound := by
      simp only [hl₁, List.length_cons, List.length_append] at hr
      omega
    -- The branch did not take the else, so it cannot end in an open if.
    have hc₁ : branch.endsOpen = false :=
      Bool.eq_false_iff.mpr fun ho => h₁.closed ho separator rfl ht
    refine reads_bind (hs rest₂ hr₂) fun otherwise used₃ rest₃ errors₃ _ h₃ => ?_
    have hy := hy.append <| (Kept.free ht).append h₃.kept
    exact .still ⟨.ifElse hd h₁.wellFormed h₁.undeclaring hc₁ h₃.wellFormed h₃.undeclaring,
      by simpa [Stmt.yield] using hy, rfl, h₃.closed⟩

theorem reads_declare {keyword : Lexeme} (hk : keyword.token = .keyword .varWord)
    {ls : List Lexeme} (hb : ls.length < bound) :
    (declare (expression bound) ls).Reads (fun stmt used _ errors =>
      stmt.WellFormed ∧ Kept stmt.yield (keyword :: used) errors) ls := by
  refine reads_bind (reads_expectName ls) fun name used₁ rest₁ errors₁ hl₁ h => ?_
  have ⟨he, hu, hn⟩ := h
  subst he hu
  have hy := (Kept.free hk).append (Kept.held name)
  refine reads_bind (reads_accept? (t := .equal) nofun rest₁) fun l? used₂ rest₂ errors₂ hl₂ h => ?_
  cases l?
  case none =>
    have ⟨he, hu, _⟩ := h
    subst he hu
    refine reads_expect (t := .semicolon) nofun fun semicolon rest _ hs => ?_
    exact .still ⟨.declare hn nofun, by simpa [Stmt.yield] using hy.append <| .free hs⟩
  case some equals =>
    obtain ⟨he, hu, ht⟩ := h
    subst he hu
    have hr₂ : rest₂.length < bound := by
      simp only [hl₁, hl₂, List.length_cons, List.length_append] at hb
      omega
    refine reads_bind (reads_expression bound rest₂ hr₂) fun value _ rest₃ _ _ hv => ?_
    obtain ⟨hd, hv⟩ := hv
    refine reads_expect (t := .semicolon) nofun fun semicolon rest _ hs => ?_
    have hy := hy.append <| (Kept.free ht).append <| hv.append <| .free hs
    exact .still ⟨.declare hn fun e h => Option.mem_some.mp h ▸ hd, by simpa [Stmt.yield] using hy⟩

theorem reads_declaration
    (hs : ∀ ls, ls.length < bound → (statement bound ls).Reads Stmt.Sound ls)
    {ls : List Lexeme} (hb : ls.length < bound) :
    (declaration (expression bound) (statement bound) ls).Reads (fun stmt used _ errors =>
      stmt.WellFormed ∧ Kept stmt.yield used errors) ls := by
  cases ls
  case nil => exact .exhausted nofun
  case cons l ls =>
    rw [declaration]
    split
    case h_1 ht =>
      exact .cons (Lexeme.not_isEnd ht nofun) <| reads_declare ht <| Nat.lt_of_succ_lt hb
    case h_2 => exact (hs _ hb).imp fun _ _ _ _ _ h => ⟨h.wellFormed, h.kept⟩

theorem resume?_eq_some {ls ls' : List Lexeme} (h : resume? ls = some ls') :
    ∃ used, ls = used ++ ls' ∧ (∀ l ∈ used, ¬l.IsEnd) ∧ (used = [] → ∀ l ∈ ls.head?, l.IsEnd) := by
  induction ls
  case nil => contradiction
  case cons l ls hi =>
    unfold resume? at h
    split at h
    case h_1 ht =>
      cases h
      exact ⟨[], rfl, nofun, fun _ _ h => Option.mem_some.mp h ▸ ht⟩
    case h_2 ht =>
      cases h
      exact ⟨[l], rfl, fun _ h => List.mem_singleton.mp h ▸ Lexeme.not_isEnd ht nofun, nofun⟩
    case h_3 he _ =>
      split at h
      case h_1 => contradiction
      case h_2 next rest =>
        split at h
        case isTrue =>
          cases h
          exact ⟨[l], rfl, fun _ h => List.mem_singleton.mp h ▸ he, nofun⟩
        case isFalse =>
          have ⟨used, hu, hn, _⟩ := hi h
          exact ⟨l :: used, by rw [hu, List.cons_append], List.forall_mem_cons.mpr ⟨he, hn⟩, nofun⟩

theorem resume?_eq_none {ls : List Lexeme} (h : resume? ls = none) : ∀ l ∈ ls, ¬l.IsEnd := by
  induction ls
  case nil => nofun
  case cons l ls hi =>
    unfold resume? at h
    split at h
    case h_1 | h_2 => contradiction
    case h_3 he _ =>
      refine List.forall_mem_cons.mpr ⟨he, ?_⟩
      split at h
      case h_1 => nofun
      case h_2 =>
        split at h
        case isTrue => contradiction
        case isFalse => exact hi h

theorem reads_recovered {phrase : Phrase Stmt} {l : Lexeme} {ls : List Lexeme} (hl : ¬l.IsEnd)
    (h : (phrase (l :: ls)).Reads (fun stmt used _ errors =>
      stmt.WellFormed ∧ Kept stmt.yield used errors) (l :: ls)) :
    (recovered phrase (l :: ls)).Reads (fun stmt? used _ errors =>
      (∀ stmt ∈ stmt?, stmt.WellFormed) ∧ Kept (Stmt.yields stmt?.toList) used errors ∧ used ≠ [])
      (l :: ls) := by
  generalize hr : phrase (l :: ls) = r at h
  generalize he : l :: ls = input at h hr
  cases h
  case done stmt used rest errors hu h =>
    rw [recovered, hr]
    refine .done _ hu
      ⟨fun _ hs => Option.mem_some.mp hs ▸ h.left, ?_, h.right.ne_nil stmt.yield_ne_nil⟩
    simpa [Stmt.yields] using h.right
  case failed used rest l' kind errors hu =>
    rw [recovered, hr]
    dsimp only
    cases hp : resume? (l' :: rest)
    case none =>
      exact .exhausted fun l hm => (List.mem_append.mp hm).elim (hu l) (resume?_eq_none hp l)
    case some rest' =>
      obtain ⟨used', he', hu', hf⟩ := resume?_eq_some hp
      have hne : used ++ used' ≠ [] := by
        intro hn
        obtain ⟨hn, hn'⟩ := List.append_eq_nil_iff.mp hn
        subst hn
        cases he
        exact hl <| hf hn' l rfl
      rw [he', ← List.append_assoc]
      refine .done _ (fun l hm => (List.mem_append.mp hm).elim (hu l) (hu' l))
        ⟨fun stmt hm => absurd hm (Option.not_mem_none stmt), ?_, hne⟩
      exact Kept.nil.drop hne (by simp)
  case exhausted hu =>
    rw [recovered, hr]
    exact .exhausted hu

theorem reads_declarations {closes : Token → Bool} (hc : closes .eof) {inner : Nat}
    (hs : ∀ ls, ls.length < inner → (statement inner ls).Reads Stmt.Sound ls)
    {ls : List Lexeme} (hi : ls.length < inner) (hb : ls.length < bound) :
    (declarations closes (declaration (expression inner) (statement inner)) bound ls).Reads
      (fun stmts used rest errors =>
        (∀ stmt ∈ stmts, stmt.WellFormed) ∧ Kept (Stmt.yields stmts) used errors ∧
          ∃ l rest', rest = l :: rest' ∧ closes l.token) ls := by
  induction bound generalizing ls
  case zero => exact absurd hb (Nat.not_lt_zero _)
  case succ bound hr =>
    cases ls
    case nil => exact .exhausted nofun
    case cons l ls =>
      rw [declarations]
      split
      case isTrue h => exact .still ⟨nofun, .nil, l, ls, rfl, h⟩
      case isFalse h =>
        have hl : ¬l.IsEnd := fun he => h <| by rw [he]; exact hc
        refine (reads_recovered hl (reads_declaration hs hi)).andThen
          fun stmt? used rest errors he ⟨hw, hk, hn⟩ => ?_
        have hl := congrArg List.length he
        have hp := List.length_pos_iff.mpr hn
        simp only [List.length_cons, List.length_append] at hl hi hb
        refine (hr (by omega) (by omega)).andThen
          fun stmts used' rest' errors' _ ⟨hw', hk', hc'⟩ => ?_
        refine .still ⟨fun stmt hm => ?_, ?_, hc'⟩
        case refine_1 =>
          exact (List.mem_append.mp hm).elim (fun h => hw stmt (Option.mem_toList.mp h)) (hw' stmt)
        case refine_2 => simpa [Stmt.yields_append] using hk.append hk'

theorem reads_block {opening : Lexeme} (ho : opening.token = .leftBrace)
    (hs : ∀ ls, ls.length < bound → (statement bound ls).Reads Stmt.Sound ls)
    {ls : List Lexeme} (hb : ls.length < bound) :
    (block (declarations closesBlock (declaration (expression bound) (statement bound)) bound)
      ls).Reads (fun stmt used => stmt.Sound (opening :: used)) ls := by
  refine reads_bind (reads_declarations rfl hs hb hb) fun body used rest errors _ ⟨hw, hk, _⟩ => ?_
  refine reads_expect (t := .rightBrace) nofun fun closing rest _ hc => ?_
  have hy := (Kept.free ho).append <| hk.append <| .free hc
  exact .still ⟨.block hw, by simpa [Stmt.yield] using hy, rfl, nofun⟩

theorem reads_statement (bound : Nat) (ls : List Lexeme) (hb : ls.length < bound) :
    (statement bound ls).Reads Stmt.Sound ls := by
  induction bound generalizing ls
  case zero => exact absurd hb (Nat.not_lt_zero _)
  case succ bound hi =>
    cases ls
    case nil => exact .exhausted nofun
    case cons l ls =>
      have hl := Nat.lt_of_succ_lt_succ hb
      rw [statement]
      split
      case h_1 ht =>
        exact .cons (Lexeme.not_isEnd ht nofun) <| reads_conditional ht hi hl
      case h_2 ht => exact .cons (Lexeme.not_isEnd ht nofun) <| reads_loop ht hi hl
      case h_3 ht => exact .cons (Lexeme.not_isEnd ht nofun) <| reads_print ht hl
      case h_4 ht => exact .cons (Lexeme.not_isEnd ht nofun) <| reads_block ht hi hl
      case h_5 => exact reads_bare hb

theorem reads_program (bound : Nat) (ls : List Lexeme) (hb : ls.length < bound) :
    (program bound ls).Reads (fun stmts used rest errors =>
      (∀ stmt ∈ stmts, stmt.WellFormed) ∧ Kept (Stmt.yields stmts) used errors ∧
        ∃ l rest', rest = l :: rest' ∧ closesProgram l.token) ls :=
  reads_declarations rfl (reads_statement bound) hb hb

theorem recovered_ne_failed (phrase : Phrase α) (ls rest : List Lexeme) (error : ParseError)
    (errors : List ParseError) : recovered phrase ls ≠ .failed error rest errors := by
  unfold recovered
  split
  case h_2 => split <;> nofun
  all_goals nofun

theorem declarations_ne_failed (closes : Token → Bool) (declaration : Phrase Stmt) (bound : Nat)
    (ls rest : List Lexeme) (error : ParseError) (errors : List ParseError) :
    declarations closes declaration bound ls ≠ .failed error rest errors := by
  induction bound generalizing ls rest error errors
  case zero => nofun
  case succ bound hi =>
    cases ls
    case nil => nofun
    case cons l ls =>
      rw [declarations]
      split
      case isTrue => nofun
      case isFalse =>
        cases hr : recovered declaration (l :: ls)
        case failed => exact absurd hr <| recovered_ne_failed _ _ _ _ _
        case exhausted => nofun
        case done _ rest' _ =>
          have hd := hi rest'
          simp only [Reply.andThen]
          cases h : declarations closes declaration bound rest'
          case failed => exact absurd h <| hd _ _ _
          all_goals nofun

end Phrase

theorem parse?_cases (ls : List Lexeme) :
    (parse? ls = none ∧ ∀ l ∈ ls, ¬l.IsEnd) ∨
      ∃ parsed used eof rest, parse? ls = some parsed ∧ ls = used ++ eof :: rest ∧
        (∀ l ∈ used, ¬l.IsEnd) ∧ eof.IsEnd ∧ (∀ stmt ∈ parsed.statements, stmt.WellFormed) ∧
        Kept (Stmt.yields parsed.statements) used parsed.errors := by
  have h := Phrase.reads_program (ls.length + 1) ls (Nat.lt_succ_self _)
  unfold parse?
  generalize hr : Phrase.program (ls.length + 1) ls = r at h
  cases h
  case done stmts used rest errors hu h =>
    have ⟨hw, hk, eof, rest', he, hc⟩ := h
    subst he
    have he : eof.IsEnd := of_decide_eq_true hc
    exact .inr ⟨_, used, eof, rest', rfl, rfl, hu, he, hw, hk⟩
  case failed => exact absurd hr <| Phrase.declarations_ne_failed _ _ _ _ _ _ _
  case exhausted h => exact .inl ⟨rfl, h⟩

theorem parse?_wellFormed {ls : List Lexeme} {parsed : Parsed} (h : parse? ls = some parsed) :
    ∀ stmt ∈ parsed.statements, stmt.WellFormed := by
  cases parse?_cases ls
  case inl hn =>
    rw [hn.left] at h
    contradiction
  case inr hs =>
    have ⟨parsed', _, _, _, hp, _, _, _, hw, _⟩ := hs
    rw [hp] at h
    cases h
    exact hw

theorem eq_of_append_end {ls used rest : List Lexeme} {eof eof' : Lexeme}
    (hl : ∀ l ∈ ls, ¬l.IsEnd) (he : eof'.IsEnd) (h : ls ++ [eof] = used ++ eof' :: rest) :
    used = ls := by
  rcases List.append_eq_append_iff.mp h with ⟨as, hu, hs⟩ | ⟨bs, hu, hs⟩
  case inl =>
    have hl := congrArg List.length hs
    simp only [List.length_append, List.length_cons, List.length_nil] at hl
    rw [hu, List.length_eq_zero_iff.mp (by omega : as.length = 0), List.append_nil]
  case inr =>
    cases bs
    case nil => rw [hu, List.append_nil]
    case cons b bs =>
      cases List.head_eq_of_cons_eq hs
      exact absurd he <| hl eof' <| by simp [hu]

-- The trees are of the grammar and their text is taken from the lexemes, also behind errors, and
-- without errors it is all of them.
theorem parse?_append_end {ls : List Lexeme} (hl : ∀ l ∈ ls, ¬l.IsEnd) {eof : Lexeme}
    (he : eof.IsEnd) :
    ∃ parsed, parse? (ls ++ [eof]) = some parsed ∧
      (∀ stmt ∈ parsed.statements, stmt.WellFormed) ∧
      (∃ kept, kept.Sublist ls ∧ Forall₂ Terminal.Fits (Stmt.yields parsed.statements) kept) ∧
      ((Stmt.yields parsed.statements).map Terminal.token).Sublist (ls.map Lexeme.token) ∧
      ((Stmt.yields parsed.statements).map Terminal.token = ls.map Lexeme.token ↔
        parsed.errors = []) := by
  cases parse?_cases (ls ++ [eof])
  case inl hn => exact absurd he <| hn.right eof (by simp)
  case inr hs =>
    have ⟨parsed, used, eof', rest, hp, hu, hn, he', hw, hk⟩ := hs
    have hu := eq_of_append_end hl he' hu
    subst hu
    have ⟨kept, hsub, hf, _⟩ := hk
    exact ⟨parsed, hp, hw, ⟨kept, hsub, hf⟩, hk.map_token_sublist, hk.map_token_eq_iff⟩

theorem parse?_append_end_of_failures_in_block :
    let ls : List Lexeme := [Token.leftBrace, .identifier "a", .plus, .identifier "b", .equal,
      .identifier "c", .semicolon, .keyword .printWord, .semicolon, .rightBrace, .identifier "d",
      .semicolon].map fun t => ⟨t, "", 1⟩
    let eof : Lexeme := ⟨.eof, "", 1⟩
    (∀ l ∈ ls, ¬l.IsEnd) ∧ eof.IsEnd ∧ ∃ parsed, parse? (ls ++ [eof]) = some parsed ∧
      (∀ stmt ∈ parsed.statements, stmt.WellFormed) ∧
      (∃ kept, kept.Sublist ls ∧ Forall₂ Terminal.Fits (Stmt.yields parsed.statements) kept) ∧
      ((Stmt.yields parsed.statements).map Terminal.token).Sublist (ls.map Lexeme.token) ∧
      ((Stmt.yields parsed.statements).map Terminal.token = ls.map Lexeme.token ↔
        parsed.errors = []) := by
  intro ls eof
  have hl : ∀ l ∈ ls, ¬l.IsEnd := by decide
  exact ⟨hl, rfl, parse?_append_end hl rfl⟩

end Lox
