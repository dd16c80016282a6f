import Lox.Proofs.Syntax.Completeness.Expression

namespace Lox

open List (Forall₂)

namespace Expr

theorem Derives.expression_eq {e : Expr} (h : e.Derives .assignment) (bound : Nat)
    {used : List Lexeme} {next : Lexeme} (rest : List Lexeme)
    (hf : Forall₂ Terminal.Fits e.yield used)
    (hn : next.token = .semicolon ∨ next.token = .rightParen)
    (hb : used.length + rest.length + 1 < bound) :
    Phrase.expression bound (used ++ next :: rest) = .done e (next :: rest) [] := by
  obtain ⟨bound, rfl⟩ : ∃ k, bound = k + 1 := ⟨bound - 1, by omega⟩
  refine h.isRead.left bound used next rest hf (by omega) ?_
  rcases hn with hn | hn <;> rw [hn] <;> rfl

end Expr

namespace Phrase

variable {α : Type} {bound : Nat}

theorem bind_condition {condition : Expr} (hc : condition.Derives .assignment)
    {opening closing : Lexeme} {used ls : List Lexeme} (kind₁ kind₂ : ParseErrorKind)
    (next : Expr → Phrase α) (ho : opening.token = .leftParen)
    (hf : Forall₂ Terminal.Fits condition.yield used) (hcl : closing.token = .rightParen)
    (hb : used.length + ls.length + 1 < bound) :
    (do
      expect .leftParen kind₁
      let condition ← expression bound
      expect .rightParen kind₂
      next condition : Phrase α) (opening :: (used ++ closing :: ls)) = next condition ls := by
  rw [bind_of_done (expect_of_eq ho _ _),
    bind_of_done (hc.expression_eq _ ls hf (.inr hcl) hb), bind_of_done (expect_of_eq hcl _ _)]

theorem declaration_of_ne (expression : Phrase Expr) (statement : Phrase Stmt) {l : Lexeme}
    (h : l.token ≠ .keyword .varWord) (ls : List Lexeme) :
    declaration expression statement (l :: ls) = statement (l :: ls) := by
  rw [declaration]
  split
  case h_1 ht => contradiction
  case h_2 => rfl

theorem statement_bare {l : Lexeme} (h : l.token.opensExpression) (ls : List Lexeme) :
    statement (bound + 1) (l :: ls) = bare (expression (bound + 1)) (l :: ls) := by
  rw [statement]
  split
  case h_5 => rfl
  all_goals rename_i ht; rw [ht] at h; contradiction

theorem recovered_of_done {phrase : Phrase α} {value : α} {ls rest : List Lexeme}
    (h : phrase ls = .done value rest []) :
    recovered phrase ls = .done (some value) rest [] := by
  rw [recovered, h]

end Phrase

namespace Stmt

-- The phrase of declarations reads the statement off its text. The only statements that look at
-- what follows them are those that end in an if without an else.
def IsRead (stmt : Stmt) : Prop :=
  ∀ (bound : Nat) (used : List Lexeme) (next : Lexeme) (rest : List Lexeme),
    Forall₂ Terminal.Fits stmt.yield used → used.length + rest.length + 1 < bound →
    (stmt.endsOpen → next.token ≠ .keyword .elseWord) →
    Phrase.declaration (Phrase.expression bound) (Phrase.statement bound) (used ++ next :: rest) =
      .done stmt (next :: rest) []

theorem IsRead.statement_eq {stmt : Stmt} (h : stmt.IsRead) (hw : stmt.WellFormed)
    (hd : stmt.isDeclaration = false) (bound : Nat) {used : List Lexeme} (next : Lexeme)
    (rest : List Lexeme) (hf : Forall₂ Terminal.Fits stmt.yield used)
    (hb : used.length + rest.length + 1 < bound)
    (he : stmt.endsOpen → next.token ≠ .keyword .elseWord) :
    Phrase.statement bound (used ++ next :: rest) = .done stmt (next :: rest) [] := by
  have h := h bound used next rest hf hb he
  obtain ⟨l, ls, rfl, _, hv⟩ := hw.opens hf
  rwa [List.cons_append, Phrase.declaration_of_ne _ _ (hv hd)] at h

theorem isRead_print {value : Expr} (hv : value.Derives .assignment) : IsRead (.print value) := by
  intro bound used next rest hf hb _
  obtain ⟨keyword, _, rfl, hk, hf'⟩ := Terminal.forall₂_fits_free hf
  obtain ⟨used, semicolon, rfl, hu, ht⟩ := Terminal.forall₂_fits_closed hf'
  simp only [List.length_cons, List.length_append, List.length_nil] at hb
  obtain ⟨bound, rfl⟩ : ∃ k, bound = k + 1 := ⟨bound - 1, by omega⟩
  rw [List.cons_append, Phrase.declaration_of_ne _ _ (by rw [hk]; nofun), Phrase.statement, hk,
    List.append_assoc, List.singleton_append]
  have he := hv.expression_eq bound (next :: rest) hu (.inl ht)
    (by rw [List.length_cons]; omega)
  dsimp only
  rw [Phrase.print, Phrase.bind_of_done he, Phrase.bind_of_done (Phrase.expect_of_eq ht _ _)]
  rfl

theorem isRead_expression {value : Expr} (hv : value.Derives .assignment) :
    IsRead (.expression value) := by
  intro bound used next rest hf hb _
  obtain ⟨used, semicolon, rfl, hu, ht⟩ := Terminal.forall₂_fits_closed hf
  simp only [List.length_append, List.length_cons, List.length_nil] at hb
  obtain ⟨bound, rfl⟩ : ∃ k, bound = k + 1 := ⟨bound - 1, by omega⟩
  have he := hv.expression_eq (bound + 1) (next :: rest) hu (.inl ht)
    (by rw [List.length_cons]; omega)
  obtain ⟨l, ls, rfl, ho, _⟩ := hv.opens hu
  have hn : l.token ≠ .keyword .varWord := fun h => by rw [h] at ho; contradiction
  rw [List.cons_append] at he
  rw [List.append_assoc, List.singleton_append, List.cons_append]
  rw [Phrase.declaration_of_ne _ _ hn, Phrase.statement_bare ho, Phrase.bare,
    Phrase.bind_of_done he, Phrase.bind_of_done (Phrase.expect_of_eq ht _ _)]
  rfl

theorem isRead_declare {name : Lexeme} {initial : Option Expr} (hn : name.IsName)
    (hi : ∀ e ∈ initial, e.Derives .assignment) : IsRead (.declare name initial) := by
  intro bound used next rest hf hb _
  cases initial
  case none =>
    obtain ⟨keyword, _, rfl, hk, hf₁⟩ := Terminal.forall₂_fits_free hf
    obtain ⟨_, rfl, hf₂⟩ := Terminal.forall₂_fits_held hf₁
    obtain ⟨semicolon, _, rfl, ht, hf₃⟩ := Terminal.forall₂_fits_free hf₂
    cases hf₃
    simp only [List.cons_append, List.nil_append]
    rw [Phrase.declaration, hk]
    dsimp only
    rw [Phrase.declare, Phrase.bind_of_done (Phrase.expectName_of_isName hn _),
      Phrase.bind_of_done (Phrase.accept?_of_ne (by rw [ht]; nofun) _)]
    dsimp only
    rw [Phrase.bind_of_done (Phrase.expect_of_eq ht _ _)]
    rfl
  case some initial =>
    obtain ⟨keyword, _, rfl, hk, hf₁⟩ := Terminal.forall₂_fits_free hf
    obtain ⟨_, rfl, hf₂⟩ := Terminal.forall₂_fits_held hf₁
    obtain ⟨equals, _, rfl, he, hf₃⟩ := Terminal.forall₂_fits_free hf₂
    obtain ⟨used, semicolon, rfl, hu, ht⟩ := Terminal.forall₂_fits_closed hf₃
    simp only [List.length_append, List.length_cons, List.length_nil] at hb
    have hv := (hi _ rfl).expression_eq bound (next :: rest) hu (.inl ht)
      (by rw [List.length_cons]; omega)
    simp only [List.cons_append, List.append_assoc, List.nil_append]
    rw [Phrase.declaration, hk]
    dsimp only
    rw [Phrase.declare, Phrase.bind_of_done (Phrase.expectName_of_isName hn _),
      Phrase.bind_of_done (Phrase.accept?_of_eq he _)]
    dsimp only
    rw [Phrase.bind_of_done hv, Phrase.bind_of_done (Phrase.expect_of_eq ht _ _)]
    rfl

theorem isRead_of_condition {stmt : Stmt} {t : Token} {condition : Expr} {ts : List Terminal}
    {kind₁ kind₂ : ParseErrorKind} {k : Nat → Expr → Phrase Stmt}
    (hc : condition.Derives .assignment) (ht : t ≠ .keyword .varWord)
    (hy : stmt.yield = .free t :: .free .leftParen :: condition.yield ++ .free .rightParen :: ts)
    (hs : ∀ (bound : Nat) (keyword : Lexeme) (ls : List Lexeme), keyword.token = t →
      Phrase.statement (bound + 1) (keyword :: ls) = (do
        Phrase.expect .leftParen kind₁
        let condition ← Phrase.expression bound
        Phrase.expect .rightParen kind₂
        k bound condition : Phrase Stmt) ls)
    (hk : ∀ (bound : Nat) (used : List Lexeme) (next : Lexeme) (rest : List Lexeme),
      Forall₂ Terminal.Fits ts used → used.length + rest.length + 1 < bound →
      (stmt.endsOpen → next.token ≠ .keyword .elseWord) →
      k bound condition (used ++ next :: rest) = .done stmt (next :: rest) []) : stmt.IsRead := by
  intro bound used next rest hf hl he
  rw [hy] at hf
  obtain ⟨keyword, opening, used₁, closing, used₂, rfl, hw, ho, hu₁, hcl, hu₂⟩ :=
    Terminal.forall₂_fits_condition hf
  simp only [List.length_append, List.length_cons] at hl
  obtain ⟨bound, rfl⟩ : ∃ k, bound = k + 1 := ⟨bound - 1, by omega⟩
  have hb : used₁.length + (used₂ ++ next :: rest).length + 1 < bound := by
    simp only [List.length_append, List.length_cons]
    omega
  simp only [List.cons_append, List.append_assoc]
  rw [Phrase.declaration_of_ne _ _ (hw ▸ ht), hs _ _ _ hw,
    Phrase.bind_condition hc _ _ _ ho hu₁ hcl hb]
  exact hk bound used₂ next rest hu₂ (by omega) he

theorem isRead_ifThen {condition : Expr} {branch : Stmt} (hc : condition.Derives .assignment)
    (hw : branch.WellFormed) (hd : branch.isDeclaration = false) (hb : branch.IsRead) :
    IsRead (.ifThen condition branch) := by
  refine isRead_of_condition hc (t := .keyword .ifWord) nofun rfl
    (fun bound keyword ls hk => by rw [Phrase.statement, hk]; rfl)
    fun bound used next rest hu hl he => ?_
  have hs := hb.statement_eq hw hd bound next rest hu hl fun _ => he rfl
  rw [Phrase.bind_of_done hs, Phrase.bind_of_done (Phrase.accept?_of_ne (he rfl) _)]
  rfl

theorem isRead_ifElse {condition : Expr} {branch otherwise : Stmt}
    (hc : condition.Derives .assignment) (hw : branch.WellFormed)
    (hd : branch.isDeclaration = false) (ho : branch.endsOpen = false)
    (hw' : otherwise.WellFormed) (hd' : otherwise.isDeclaration = false) (hb : branch.IsRead)
    (hb' : otherwise.IsRead) : IsRead (.ifElse condition branch otherwise) := by
  refine isRead_of_condition hc (t := .keyword .ifWord) nofun rfl
    (fun bound keyword ls hk => by rw [Phrase.statement, hk]; rfl)
    fun bound used next rest hu hl he => ?_
  obtain ⟨used₁, _, rfl, hu₁, hu⟩ := Terminal.forall₂_fits_append hu
  obtain ⟨separator, used₂, rfl, hs, hu₂⟩ := Terminal.forall₂_fits_free hu
  simp only [List.length_append, List.length_cons] at hl
  have h₁ := hb.statement_eq hw hd bound separator (used₂ ++ next :: rest) hu₁
    (by simp only [List.length_append, List.length_cons]; omega) (by rw [ho]; nofun)
  have h₂ := hb'.statement_eq hw' hd' bound next rest hu₂ (by omega) he
  rw [List.append_assoc, List.cons_append, Phrase.bind_of_done h₁,
    Phrase.bind_of_done (Phrase.accept?_of_eq hs _)]
  dsimp only
  rw [Phrase.bind_of_done h₂]
  rfl

theorem isRead_loop {condition : Expr} {body : Stmt} (hc : condition.Derives .assignment)
    (hw : body.WellFormed) (hd : body.isDeclaration = false) (hb : body.IsRead) :
    IsRead (.loop condition body) := by
  refine isRead_of_condition hc (t := .keyword .whileWord) nofun rfl
    (fun bound keyword ls hk => by rw [Phrase.statement, hk]; rfl)
    fun bound used next rest hu hl he => ?_
  rw [Phrase.bind_of_done <| hb.statement_eq hw hd bound next rest hu hl he]
  rfl

theorem ne_else_of_yields {stmts : List Stmt} (hw : ∀ stmt ∈ stmts, stmt.WellFormed)
    {used : List Lexeme} (hf : Forall₂ Terminal.Fits (yields stmts) used) {next : Lexeme}
    (hn : next.token ≠ .keyword .elseWord) (rest : List Lexeme) :
    ∃ next' rest', used ++ next :: rest = next' :: rest' ∧ next'.token ≠ .keyword .elseWord := by
  cases stmts
  case nil =>
    cases hf
    exact ⟨next, rest, rfl, hn⟩
  case cons stmt stmts =>
    obtain ⟨_, used', rfl, hf₁, _⟩ := Terminal.forall₂_fits_append hf
    obtain ⟨l, ls, rfl, ho, _⟩ := (hw stmt List.mem_cons_self).opens hf₁
    refine ⟨l, ls ++ used' ++ next :: rest, by simp, fun h => ?_⟩
    rw [h] at ho
    contradiction

theorem declarations_eq (closes : Token → Bool) (ho : ∀ t, t.opensDeclaration → closes t = false)
    (inner bound : Nat) {next : Lexeme} (hc : closes next.token)
    (hn : next.token ≠ .keyword .elseWord) (rest : List Lexeme) {stmts : List Stmt}
    (hw : ∀ stmt ∈ stmts, stmt.WellFormed) (hr : ∀ stmt ∈ stmts, stmt.IsRead)
    {used : List Lexeme} (hf : Forall₂ Terminal.Fits (yields stmts) used)
    (hi : used.length + rest.length + 1 < inner) (hb : used.length + rest.length + 1 < bound) :
    Phrase.declarations closes
      (Phrase.declaration (Phrase.expression inner) (Phrase.statement inner)) bound
      (used ++ next :: rest) = .done stmts (next :: rest) [] := by
  obtain ⟨bound, rfl⟩ : ∃ k, bound = k + 1 := ⟨bound - 1, by omega⟩
  induction stmts generalizing used bound
  case nil =>
    cases hf
    exact if_pos hc
  case cons stmt stmts hs =>
    have hw₁ := hw stmt List.mem_cons_self
    have hw₂ := fun s h => hw s <| List.mem_cons_of_mem _ h
    obtain ⟨used₁, used₂, rfl, hf₁, hf₂⟩ := Terminal.forall₂_fits_append hf
    -- What stands behind the statement begins another one or is the end. Neither is an `else`,
    -- which an if without one would take.
    obtain ⟨next', rest', he, hn'⟩ := ne_else_of_yields hw₂ hf₂ hn rest
    have hl := congrArg List.length he
    simp only [List.length_append, List.length_cons] at hi hb hl
    have hd := hr stmt List.mem_cons_self inner used₁ next' rest' hf₁ (by omega) fun _ => hn'
    obtain ⟨l, ls, rfl, hl', _⟩ := hw₁.opens hf₁
    rw [List.length_cons] at hi hb
    obtain ⟨bound, rfl⟩ : ∃ k, bound = k + 1 := ⟨bound - 1, by omega⟩
    have h := hs hw₂ (fun s h => hr s <| List.mem_cons_of_mem _ h) hf₂ (by omega) bound (by omega)
    rw [he] at h
    rw [List.cons_append] at hd
    rw [List.append_assoc, he, List.cons_append]
    rw [Phrase.declarations, ho _ hl', if_neg Bool.false_ne_true, Phrase.recovered_of_done hd,
      Reply.andThen_done, h, Reply.andThen_done]
    rfl

theorem isRead_block {body : List Stmt} (hw : ∀ stmt ∈ body, stmt.WellFormed)
    (hr : ∀ stmt ∈ body, stmt.IsRead) : IsRead (.block body) := by
  intro bound used next rest hf hb _
  obtain ⟨opening, _, rfl, ho, hf'⟩ := Terminal.forall₂_fits_free hf
  obtain ⟨used, closing, rfl, hu, hc⟩ := Terminal.forall₂_fits_closed hf'
  simp only [List.length_cons, List.length_append, List.length_nil] at hb
  obtain ⟨bound, rfl⟩ : ∃ k, bound = k + 1 := ⟨bound - 1, by omega⟩
  have hl : used.length + (next :: rest).length + 1 < bound := by
    rw [List.length_cons]
    omega
  have hd := declarations_eq Phrase.closesBlock (fun t _ => by cases t <;> trivial) bound bound
    (by rw [hc]; rfl) (by rw [hc]; nofun) (next :: rest) hw hr hu hl hl
  rw [List.cons_append, Phrase.declaration_of_ne _ _ (by rw [ho]; nofun), Phrase.statement, ho,
    List.append_assoc, List.singleton_append]
  dsimp only
  rw [Phrase.block, Phrase.bind_of_done hd, Phrase.bind_of_done (Phrase.expect_of_eq hc _ _)]
  rfl

theorem WellFormed.isRead {stmt : Stmt} (h : stmt.WellFormed) : stmt.IsRead := by
  induction h
  case print hv => exact isRead_print hv
  case expression hv => exact isRead_expression hv
  case declare hn hi => exact isRead_declare hn hi
  case block hb hi => exact isRead_block hb hi
  case ifThen hc hb hd hi => exact isRead_ifThen hc hb hd hi
  case ifElse hc hb hd ho hb' hd' hi hi' => exact isRead_ifElse hc hb hd ho hb' hd' hi hi'
  case loop hc hb hd hi => exact isRead_loop hc hb hd hi

end Stmt

-- Every program of the grammar is read off any lexemes that fit its text, with an end behind them.
-- Whatever stands behind the end is not looked at.
theorem parse?_eq_of_fits_yields {program : List Stmt} (hw : ∀ stmt ∈ program, stmt.WellFormed)
    {ls : List Lexeme} (hf : Forall₂ Terminal.Fits (Stmt.yields program) ls) {eof : Lexeme}
    (he : eof.token = .eof) (rest : List Lexeme) :
    parse? (ls ++ eof :: rest) = some { statements := program, errors := [] } := by
  have hl : ls.length + rest.length + 1 < (ls ++ eof :: rest).length + 1 := by
    rw [List.length_append, List.length_cons]
    omega
  have hd := Stmt.declarations_eq Phrase.closesProgram (fun t _ => by cases t <;> trivial) _ _
    (by rw [he]; rfl) (by rw [he]; nofun) rest hw (fun stmt h => (hw stmt h).isRead) hf hl hl
  rw [parse?, Phrase.program, hd]

theorem parse?_eq_of_else_behind_loop :
    let a : Lexeme := ⟨.identifier "a", "a", 1⟩
    let b : Lexeme := ⟨.identifier "b", "b", 1⟩
    let c : Lexeme := ⟨.identifier "c", "c", 2⟩
    let bang : Lexeme := ⟨.bang, "!", 1⟩
    let same : Lexeme := ⟨.equalEqual, "==", 1⟩
    let or : Lexeme := ⟨.keyword .orWord, "or", 1⟩
    let l (t : Token) : Lexeme := ⟨t, "", 1⟩
    parse? ([l (.keyword .ifWord), l .leftParen, a, l .rightParen, l (.keyword .whileWord),
      l .leftParen, b, l .rightParen, a, l .equal, bang, a, same, l (.literal .nil), or, b,
      l .semicolon, l (.keyword .elseWord), l .leftBrace, l (.keyword .varWord), c, l .equal,
      l .leftParen, a, l .rightParen, l .semicolon, l .rightBrace] ++ l .eof :: []) = some {
        statements := [.ifElse (.variable a)
          (.loop (.variable b) (.expression (.assign a (.logical
            (.binary (.unary bang (.variable a)) same (.literal .nil)) or (.variable b)))))
          (.block [.declare c (some (.grouping (.variable a)))])]
        errors := [] } := by
  intro a b c bang same or l
  have hn (s : String) (n : Nat) : Lexeme.IsName ⟨.identifier s, s, n⟩ := ⟨s, rfl⟩
  have hv {e : Expr} (h : e.Derives .unary) : e.Derives (.level .equality) :=
    .tight <| .tight <| .tight <| .tight h
  have hv' {e : Expr} (h : e.Derives .primary) : e.Derives .assignment :=
    .loose <| .tight <| .tight <| hv <| .single h
  refine parse?_eq_of_fits_yields (fun stmt hs => ?_) ?_ rfl []
  case refine_1 =>
    cases List.mem_singleton.mp hs
    refine .ifElse (hv' <| .named (hn ..)) (.loop (hv' <| .named (hn ..)) (.expression ?_) rfl) rfl
      rfl (.block fun stmt hs => ?_) rfl
    case refine_1 =>
      have ha : (Expr.unary bang (.variable a)).Derives .unary :=
        .unary (.head _) <| .single <| .named (hn ..)
      have he : (Expr.binary (.unary bang (.variable a)) same (.literal .nil)).Derives
          (.level .equality) :=
        .binary (.tail _ <| .head _) (hv ha) (.tight <| .tight <| .tight <| .single <| .literal _)
      exact .assign (hn ..) <| .loose <|
        .logical (.head _) (.tight <| .tight he) (.tight <| hv <| .single <| .named (hn ..))
    case refine_2 =>
      cases List.mem_singleton.mp hs
      refine .declare (hn ..) fun e h => ?_
      cases Option.mem_some.mp h
      exact hv' <| .grouping <| hv' <| .named (hn ..)
  case refine_2 => repeat constructor

end Lox
