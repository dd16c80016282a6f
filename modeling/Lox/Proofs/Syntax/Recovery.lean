import Lox.Proofs.Syntax.Isolation

namespace Lox

open List (Forall₂)

namespace Expr

variable {e : Expr} {used : List Lexeme} {next : Lexeme}

theorem Derives.unbounded_eq (h : e.Derives .assignment) (hf : Forall₂ Terminal.Fits e.yield used)
    (hn : Category.assignment.continues next.token = false) (rest : List Lexeme) :
    Phrase.Unbounded.expression (used ++ next :: rest) = .done e (next :: rest) [] :=
  h.isRead.left (used ++ next :: rest).length used next rest hf
    (by simp only [List.length_append, List.length_cons]; omega) hn

theorem Derives.inExpression_of_fits (h : e.Derives .assignment)
    (hf : Forall₂ Terminal.Fits e.yield used) : ∀ l ∈ used, l.token.inExpression := by
  let eof : Lexeme := ⟨.eof, "", 0⟩
  have he := h.unbounded_eq hf (rfl : Category.assignment.continues eof.token = false) []
  have hl := Phrase.Unbounded.localAt_expression (used ++ [eof])
  obtain ⟨used', hu, ht, _⟩ := hl [eof] (by rw [he]; rfl)
  obtain rfl := List.append_cancel_right hu
  exact ht

end Expr

theorem Token.not_continues {t : Token} (h : t.startsStatement) :
    Category.assignment.continues t = false := by
  cases t
  case keyword word => cases word <;> first | contradiction | rfl
  all_goals contradiction

def Stmt.missingEnd? : Stmt → Option ParseErrorKind
  | print _      => some .expectedSemicolonAfterValue
  | expression _ => some .expectedSemicolonAfterExpr
  | declare _ _  => some .expectedSemicolonAfterVarDeclaration
  | _            => none

theorem Fragment.of_inExpression {l semicolon : Lexeme} {ls : List Lexeme}
    (hl : l.token ∉ [.semicolon, .leftBrace, .rightBrace, .eof])
    (hn : l.token ≠ .keyword .elseWord) (hi : ∀ l ∈ ls, l.token.inExpression)
    (hs : semicolon.token = .semicolon) : Fragment (l :: ls ++ [semicolon]) where
  ends  := by
    refine ⟨l :: ls, semicolon, rfl, hs, List.forall_mem_cons.mpr ⟨hl, fun l' h' => ?_⟩⟩
    have hi := hi l' h'
    intro hm
    simp only [List.mem_cons, List.not_mem_nil, or_false] at hm
    rcases hm with hm | hm | hm | hm
    all_goals
      rw [hm] at hi
      contradiction
  first := fun l' h' => by
    cases h'
    exact hn
  alone := by
    refine List.forall_mem_append.mpr ⟨fun l' h' => ?_, fun l' h' => ?_⟩
    case refine_1 =>
      have hi := hi l' h'
      cases ht : l'.token
      case keyword word =>
        rw [ht] at hi
        cases word <;> first | contradiction | rfl
      all_goals rfl
    case refine_2 =>
      cases List.mem_singleton.mp h'
      rw [hs]
      rfl

namespace Stmt

-- The text of a statement that ends with a semicolon, without it. There is no other semicolon in
-- it, nor any word that begins another statement, so recovery does not stop within it.
inductive Unended : Stmt → List Lexeme → Prop
  | print {value : Expr} {keyword : Lexeme} {used : List Lexeme}
    (ht : keyword.token = .keyword .printWord) (hv : value.Derives .assignment)
    (hf : Forall₂ Terminal.Fits value.yield used) : Unended (.print value) (keyword :: used)
  | expression {value : Expr} {used : List Lexeme} (hv : value.Derives .assignment)
    (hf : Forall₂ Terminal.Fits value.yield used) : Unended (.expression value) used
  | declare {name keyword : Lexeme} (ht : keyword.token = .keyword .varWord) (hn : name.IsName) :
    Unended (.declare name none) [keyword, name]
  | declareValue {name keyword equals : Lexeme} {initial : Expr} {used : List Lexeme}
    (ht : keyword.token = .keyword .varWord) (hn : name.IsName) (he : equals.token = .equal)
    (hv : initial.Derives .assignment) (hf : Forall₂ Terminal.Fits initial.yield used) :
    Unended (.declare name (some initial)) (keyword :: name :: equals :: used)

variable {stmt : Stmt} {kind : ParseErrorKind} {ls before : List Lexeme} {l next semicolon : Lexeme}

theorem WellFormed.exists_unended (h : stmt.WellFormed) (hk : stmt.missingEnd? = some kind)
    (hf : Forall₂ Terminal.Fits stmt.yield ls) :
    ∃ before semicolon, ls = before ++ [semicolon] ∧ semicolon.token = .semicolon ∧
      stmt.Unended before := by
  cases h
  case print hv =>
    obtain ⟨keyword, _, rfl, ht, hf⟩ := Terminal.forall₂_fits_free hf
    obtain ⟨used, semicolon, rfl, hu, hs⟩ := Terminal.forall₂_fits_closed hf
    exact ⟨keyword :: used, semicolon, rfl, hs, .print ht hv hu⟩
  case expression hv =>
    obtain ⟨used, semicolon, rfl, hu, hs⟩ := Terminal.forall₂_fits_closed hf
    exact ⟨used, semicolon, rfl, hs, .expression hv hu⟩
  case declare name initial hn hi =>
    cases initial
    case none =>
      obtain ⟨keyword, _, rfl, ht, hf₁⟩ := Terminal.forall₂_fits_free hf
      obtain ⟨_, rfl, hf₂⟩ := Terminal.forall₂_fits_held hf₁
      obtain ⟨semicolon, _, rfl, hs, hf₃⟩ := Terminal.forall₂_fits_free hf₂
      cases hf₃
      exact ⟨[keyword, name], semicolon, rfl, hs, .declare ht hn⟩
    case some initial =>
      obtain ⟨keyword, _, rfl, ht, hf₁⟩ := Terminal.forall₂_fits_free hf
      obtain ⟨_, rfl, hf₂⟩ := Terminal.forall₂_fits_held hf₁
      obtain ⟨equals, _, rfl, he, hf₃⟩ := Terminal.forall₂_fits_free hf₂
      obtain ⟨used, semicolon, rfl, hu, hs⟩ := Terminal.forall₂_fits_closed hf₃
      exact ⟨keyword :: name :: equals :: used, semicolon, rfl, hs,
        .declareValue ht hn he (hi initial rfl) hu⟩
  all_goals contradiction

theorem WellFormed.exists_missingEnd (h : stmt.WellFormed)
    (hf : Forall₂ Terminal.Fits stmt.yield (l :: ls))
    (hl : l.token = .keyword .varWord ∨ l.token = .keyword .printWord) :
    ∃ kind, stmt.missingEnd? = some kind := by
  cases h
  case print | expression | declare => exact ⟨_, rfl⟩
  all_goals
    obtain ⟨_, _, he, ht, _⟩ := Terminal.forall₂_fits_free hf
    cases he
    rw [ht] at hl
    exact hl.elim nofun nofun

theorem Unended.fragment (h : stmt.Unended before) (hs : semicolon.token = .semicolon) :
    Fragment (before ++ [semicolon]) := by
  cases h
  case print ht hv hf =>
    exact .of_inExpression (by rw [ht]; decide) (by rw [ht]; nofun) (hv.inExpression_of_fits hf) hs
  case expression hv hf =>
    obtain ⟨l, ls, rfl, ho, _⟩ := hv.opens hf
    have hi := List.forall_mem_cons.mp (hv.inExpression_of_fits hf)
    refine .of_inExpression (fun hm => ?_) (fun he => by rw [he] at ho; contradiction) hi.right hs
    simp only [List.mem_cons, List.not_mem_nil, or_false] at hm
    rcases hm with hm | hm | hm | hm
    all_goals
      rw [hm] at ho
      contradiction
  case declare name keyword ht hn =>
    have ⟨_, hn⟩ := hn
    refine .of_inExpression (by rw [ht]; decide) (by rw [ht]; nofun) (fun l hl => ?_) hs
    rw [List.mem_singleton.mp hl, hn]
    rfl
  case declareValue ht hn he hv hf =>
    have ⟨_, hn⟩ := hn
    refine .of_inExpression (by rw [ht]; decide) (by rw [ht]; nofun) ?_ hs
    have hi := List.forall_mem_cons.mpr ⟨by rw [he]; rfl, hv.inExpression_of_fits hf⟩
    exact List.forall_mem_cons.mpr ⟨by rw [hn]; rfl, hi⟩

theorem Unended.declaration_eq (h : stmt.Unended before) (hk : stmt.missingEnd? = some kind)
    (hn : next.token.startsStatement) (rest : List Lexeme) :
    Phrase.declaration Phrase.Unbounded.expression Phrase.Unbounded.statement
      (before ++ next :: rest) = .failed ⟨kind, next⟩ (next :: rest) [] := by
  have hc := Token.not_continues hn
  have hs : next.token ≠ .semicolon := fun he => by rw [he] at hn; contradiction
  cases h
  case print ht hv hf =>
    cases hk
    rw [List.cons_append, Phrase.declaration_of_ne _ _ (by rw [ht]; nofun),
      Phrase.Unbounded.statement_cons, ht]
    dsimp only
    rw [Phrase.print, Phrase.bind_of_done (hv.unbounded_eq hf hc rest), Phrase.expect_bind_of_ne hs]
  case expression hv hf =>
    cases hk
    obtain ⟨l, ls, rfl, ho, _⟩ := hv.opens hf
    have he := hv.unbounded_eq hf hc rest
    rw [List.cons_append] at he ⊢
    rw [Phrase.declaration_of_ne _ _ (fun hl => by rw [hl] at ho; contradiction),
      Phrase.Unbounded.statement_bare ho, Phrase.bare, Phrase.bind_of_done he,
      Phrase.expect_bind_of_ne hs]
  case declare name keyword ht hn' =>
    cases hk
    have he : next.token ≠ .equal := fun he => by rw [he] at hn; contradiction
    simp only [List.cons_append, List.nil_append, Phrase.declaration, ht]
    rw [Phrase.declare, Phrase.bind_of_done (Phrase.expectName_of_isName hn' _),
      Phrase.bind_of_done (Phrase.accept?_of_ne he _)]
    exact Phrase.expect_bind_of_ne hs ..
  case declareValue ht hn' he hv hf =>
    cases hk
    simp only [List.cons_append, Phrase.declaration, ht]
    rw [Phrase.declare, Phrase.bind_of_done (Phrase.expectName_of_isName hn' _),
      Phrase.bind_of_done (Phrase.accept?_of_eq he _)]
    dsimp only
    rw [Phrase.bind_of_done (hv.unbounded_eq hf hc rest), Phrase.expect_bind_of_ne hs]

end Stmt

theorem Fragment.resume?_eq {ls : List Lexeme} (h : Fragment ls) (rest : List Lexeme) :
    Phrase.resume? (ls ++ rest) = some rest := by
  obtain ⟨before, semicolon, rfl, hs, hp⟩ := h.ends
  rw [List.append_assoc]
  refine Phrase.resume?_of_plain hs hp fun l hl => h.alone l ?_
  cases before
  case nil => contradiction
  case cons => exact List.mem_append_left _ hl

theorem Phrase.resume?_cases {ls rest : List Lexeme} (h : resume? ls = some rest)
    (hl : ∀ l ∈ ls.head?, ¬l.IsEnd) :
    ∃ first skipped, ls = first :: skipped ++ rest ∧
      (∀ l ∈ skipped, l.token ≠ .eof ∧ l.token.startsStatement = false) ∧
      (∀ l ∈ (first :: skipped).dropLast, l.token ≠ .semicolon) ∧
      ((∃ l ∈ (first :: skipped).getLast?, l.token = .semicolon) ∨
        ∃ l ∈ rest.head?, l.IsEnd ∨ l.token.startsStatement) := by
  fun_induction resume? ls
  case case1 | case4 => contradiction
  case case2 l ls ht => exact absurd ht <| hl l rfl
  case case3 l ls ht =>
    cases h
    exact ⟨l, [], rfl, List.forall_mem_nil _, List.forall_mem_nil _, .inl ⟨l, rfl, ht⟩⟩
  case case5 l next ls hn _ _ =>
    cases h
    exact ⟨l, [], rfl, List.forall_mem_nil _, List.forall_mem_nil _, .inr ⟨next, rfl, .inr hn⟩⟩
  case case6 l next ls hn _ hs hi =>
    by_cases he : next.IsEnd
    case pos =>
      simp only [resume?, show next.token = .eof from he] at h
      cases h
      exact ⟨l, [], rfl, List.forall_mem_nil _, List.forall_mem_nil _, .inr ⟨next, rfl, .inl he⟩⟩
    case neg =>
      obtain ⟨l', skipped, hc, hk, hd, hr⟩ := hi h fun _ hn => Option.mem_some.mp hn ▸ he
      cases hc
      refine ⟨l, next :: skipped, rfl,
        List.forall_mem_cons.mpr ⟨⟨he, Bool.eq_false_iff.mpr hn⟩, hk⟩, ?_, hr⟩
      exact List.forall_mem_cons.mpr ⟨hs, hd⟩

variable {before later rest : List Lexeme} {semicolon first eof eof' : Lexeme} {stmt : Stmt}
  {kind : ParseErrorKind} {parsed : Parsed}

theorem exists_resume? (hl : ∀ l ∈ first :: later, ¬l.IsEnd) (he : eof.IsEnd) :
    ∃ skipped rest, later = skipped ++ rest ∧
      Phrase.resume? (first :: later ++ [eof]) = some (rest ++ [eof]) ∧
      (∀ l ∈ skipped, l.token.startsStatement = false) ∧
      (∀ l ∈ (first :: skipped).dropLast, l.token ≠ .semicolon) ∧
      (rest = [] ∨ (∃ l ∈ (first :: skipped).getLast?, l.token = .semicolon) ∨
        ∃ l ∈ rest.head?, l.token.startsStatement) := by
  cases hr : Phrase.resume? (first :: later ++ [eof])
  case none => exact absurd he <| Phrase.resume?_eq_none hr eof (by simp)
  case some left =>
    obtain ⟨first', skipped, hc, hk, hd, hs⟩ := Phrase.resume?_cases hr fun _ h =>
      Option.mem_some.mp h ▸ hl first List.mem_cons_self
    obtain ⟨rfl, hc'⟩ := List.cons_eq_cons.mp hc
    obtain ⟨rest, rfl, rfl⟩ :=
      Phrase.exists_left (T := (· ≠ .eof)) (fun h => h he) hc' fun l h => (hk l h).left
    refine ⟨skipped, rest, rfl, rfl, fun l h => (hk l h).right, hd, ?_⟩
    cases rest
    case nil => exact .inl rfl
    case cons next rest =>
      refine .inr <| hs.imp_right fun ⟨l, h, ho⟩ => ⟨l, h, ho.resolve_left fun hn => ?_⟩
      cases h
      exact hl next (by simp) hn

namespace Stmt

theorem Unended.declarations_eq (h : stmt.Unended before) (hk : stmt.missingEnd? = some kind)
    (hb : ∀ l ∈ before, ¬l.IsEnd) (hn : first.token.startsStatement) {ls : List Lexeme}
    (hr : Phrase.resume? (first :: ls) = some rest) :
    Phrase.Unbounded.declarations Phrase.closesProgram (before ++ first :: ls) =
      (Phrase.Unbounded.declarations Phrase.closesProgram rest).after [⟨kind, first⟩] := by
  have hd : Phrase.Unbounded.round (before ++ first :: ls) = .done none rest [⟨kind, first⟩] := by
    rw [Phrase.Unbounded.round, Phrase.recovered, h.declaration_eq hk hn]
    simp only [hr, List.nil_append]
  have hf : ¬first.IsEnd := fun he => by
    rw [show first.token = .eof from he] at hn
    contradiction
  cases before
  case nil =>
    exact (Phrase.Unbounded.declarations_of_round rfl (decide_eq_false hf) hd).trans
      (congrArg _ (Reply.following_nil _))
  case cons l before =>
    have hl := hb l List.mem_cons_self
    exact (Phrase.Unbounded.declarations_of_round rfl (decide_eq_false hl) hd).trans
      (congrArg _ (Reply.following_nil _))

theorem exists_rest_of_missingEnd {stmts : List Stmt} (hw : ∀ stmt ∈ stmts, stmt.WellFormed)
    (hf : Forall₂ Terminal.Fits (yields stmts) (first :: later))
    (hl : first.token = .keyword .varWord ∨ first.token = .keyword .printWord)
    (hr : Phrase.resume? (first :: later ++ [eof]) = some (rest ++ [eof])) :
    ∃ stmt stmts', stmts = stmt :: stmts' ∧ Forall₂ Terminal.Fits (yields stmts') rest := by
  cases stmts
  case nil => cases hf
  case cons stmt stmts =>
    have hw := hw stmt List.mem_cons_self
    obtain ⟨used, rest', he, hf₁, hf₂⟩ := Terminal.forall₂_fits_append hf
    obtain ⟨l, used, rfl, _⟩ := hw.opens hf₁
    obtain ⟨rfl, _⟩ := List.cons_eq_cons.mp he
    obtain ⟨kind, hk⟩ := hw.exists_missingEnd hf₁ hl
    obtain ⟨before, semicolon, hu, hs, hu'⟩ := hw.exists_unended hk hf₁
    rw [he, hu, List.append_assoc, (hu'.fragment hs).resume?_eq] at hr
    exact ⟨stmt, stmts, rfl, List.append_cancel_right (Option.some.inj hr) ▸ hf₂⟩

end Stmt

theorem length_yields_le {ls : List Lexeme} (h : parse? (ls ++ [eof]) = some parsed)
    (hl : ∀ l ∈ ls, ¬l.IsEnd) (he : eof.IsEnd) :
    (Stmt.yields parsed.statements).length ≤ ls.length := by
  cases parse?_cases (ls ++ [eof])
  case inl hn => exact absurd he <| hn.right eof (by simp)
  case inr hs =>
    obtain ⟨parsed', used, eof', rest, hp, hu, _, he', _, hk⟩ := hs
    cases hp.symm.trans h
    obtain rfl := eq_of_append_end hl he' hu
    simpa using hk.map_token_sublist.length_le

-- The error behind the statement drops it, and also the word that the next statement begins with.
-- What that word has begun is lost up to its first semicolon or the next such word.
theorem parse?_of_missingEnd (hs : parse? (before ++ [semicolon] ++ [eof']) = some ⟨[stmt], []⟩)
    (hb : ∀ l ∈ before ++ [semicolon], ¬l.IsEnd) (he' : eof'.IsEnd)
    (hk : stmt.missingEnd? = some kind) (hp : parse? (first :: later ++ [eof]) = some parsed)
    (hn : parsed.errors = []) (hl : ∀ l ∈ first :: later, ¬l.IsEnd) (he : eof.IsEnd)
    (hf : first.token ∈
      [.keyword .varWord, .keyword .ifWord, .keyword .whileWord, .keyword .printWord]) :
    ∃ skipped rest parsed', later = skipped ++ rest ∧
      (∀ l ∈ skipped, l.token.startsStatement = false) ∧
      (∀ l ∈ (first :: skipped).dropLast, l.token ≠ .semicolon) ∧
      (rest = [] ∨ (∃ l ∈ (first :: skipped).getLast?, l.token = .semicolon) ∨
        ∃ l ∈ rest.head?, l.token.startsStatement) ∧
      parse? (rest ++ [eof]) = some parsed' ∧
      parse? (before ++ first :: later ++ [eof]) =
        some ⟨parsed'.statements, ⟨kind, first⟩ :: parsed'.errors⟩ ∧
      parsed'.statements ≠ parsed.statements ∧
      (first.token = .keyword .varWord ∨ first.token = .keyword .printWord →
        parsed'.errors = [] ∧ ∃ dropped, parsed.statements = dropped :: parsed'.statements) := by
  have ⟨hw, hy⟩ := fits_of_no_errors hs hb he' rfl
  have ⟨hw', hy'⟩ := fits_of_no_errors hp hl he hn
  have hfs : first.token.startsStatement := by
    simp only [List.mem_cons, List.not_mem_nil, or_false] at hf
    rcases hf with hf | hf | hf | hf <;> rw [hf] <;> rfl
  obtain ⟨skipped, rest, rfl, hr, hk', hd, hend⟩ := exists_resume? hl he
  have hlr : ∀ l ∈ rest, ¬l.IsEnd := fun l h =>
    hl l <| List.mem_cons_of_mem _ <| List.mem_append_right _ h
  obtain ⟨stmts, errors, hstmts⟩ := Phrase.exists_program hlr he []
  have hp' : parse? (rest ++ [eof]) = some ⟨stmts, errors⟩ := parse?_eq_some_iff.mpr ⟨_, hstmts⟩
  refine ⟨skipped, rest, ⟨stmts, errors⟩, rfl, hk', hd, hend, hp', ?whole, ?lost, ?first⟩
  case whole =>
    simp only [Stmt.yields, List.append_nil] at hy
    obtain ⟨before', _, hu, _, hu'⟩ := (hw stmt List.mem_cons_self).exists_unended hk hy
    obtain rfl := (List.append_inj' hu rfl).left
    have hb := (List.forall_mem_append.mp hb).left
    refine parse?_eq_some_iff.mpr ⟨[eof], ?_⟩
    rw [List.cons_append] at hr
    rw [List.append_assoc, List.cons_append, hu'.declarations_eq hk hb hfs hr, hstmts]
    rfl
  case lost =>
    intro (hq : stmts = parsed.statements)
    -- Statements have no more text than they were read from, and the rest lacks at least `first`.
    have hlen := length_yields_le hp' hlr he
    have hlen' := hy'.length_eq
    simp only [← hq, List.length_cons, List.length_append] at hlen hlen'
    omega
  case first =>
    intro hv
    obtain ⟨dropped, stmts', hc, hf'⟩ := Stmt.exists_rest_of_missingEnd hw' hy' hv hr
    have hw'' : ∀ stmt ∈ stmts', stmt.WellFormed := fun stmt h =>
      hw' stmt <| hc ▸ List.mem_cons_of_mem dropped h
    cases hstmts.symm.trans (Phrase.Unbounded.program_of_yields hw'' hf' he [])
    exact ⟨rfl, dropped, hc⟩

theorem parse?_of_missingEnd_before_condition :
    let of (t : Token) : Lexeme := ⟨t, "", 1⟩
    let before : List Lexeme := [of (.keyword .printWord), of (.identifier "a")]
    let later : List Lexeme := [of .leftParen, of (.identifier "b"), of .rightParen,
      of (.keyword .printWord), of (.identifier "c"), of .semicolon, of (.keyword .printWord),
      of (.identifier "d"), of .semicolon]
    let first : Lexeme := of (.keyword .ifWord)
    let stmt : Stmt := .print (.variable (of (.identifier "a")))
    let parsed : Parsed := ⟨[.ifThen (.variable (of (.identifier "b")))
      (.print (.variable (of (.identifier "c")))), .print (.variable (of (.identifier "d")))], []⟩
    parse? (before ++ [of .semicolon] ++ [of .eof]) = some ⟨[stmt], []⟩ ∧
      (∀ l ∈ before ++ [of .semicolon], ¬l.IsEnd) ∧
      stmt.missingEnd? = some .expectedSemicolonAfterValue ∧
      parse? (first :: later ++ [of .eof]) = some parsed ∧ (∀ l ∈ first :: later, ¬l.IsEnd) ∧
      ∃ skipped rest parsed', later = skipped ++ rest ∧
        (∀ l ∈ skipped, l.token.startsStatement = false) ∧
        (∀ l ∈ (first :: skipped).dropLast, l.token ≠ .semicolon) ∧
        (rest = [] ∨ (∃ l ∈ (first :: skipped).getLast?, l.token = .semicolon) ∨
          ∃ l ∈ rest.head?, l.token.startsStatement) ∧
        parse? (rest ++ [of .eof]) = some parsed' ∧
        parse? (before ++ first :: later ++ [of .eof]) =
          some ⟨parsed'.statements, ⟨.expectedSemicolonAfterValue, first⟩ :: parsed'.errors⟩ ∧
        parsed'.statements ≠ parsed.statements ∧
        (first.token = .keyword .varWord ∨ first.token = .keyword .printWord →
          parsed'.errors = [] ∧
            ∃ dropped, parsed.statements = dropped :: parsed'.statements) := by
  intro of before later first stmt parsed
  have hs : parse? (before ++ [of .semicolon] ++ [of .eof]) = some ⟨[stmt], []⟩ := rfl
  have hb : ∀ l ∈ before ++ [of .semicolon], ¬l.IsEnd := by decide
  have hp : parse? (first :: later ++ [of .eof]) = some parsed := rfl
  have hl : ∀ l ∈ first :: later, ¬l.IsEnd := by decide
  exact ⟨hs, hb, rfl, hp, hl, parse?_of_missingEnd hs hb rfl rfl hp rfl hl rfl (by decide)⟩

-- The tokens of `print 1 print 2;`. Each statement is read alone, but of both together nothing is
-- left: the second `print` is passed before recovery looks for one.
theorem statement_lost_behind_missingEnd :
    let print : Lexeme := ⟨.keyword .printWord, "print", 1⟩
    let one : Lexeme := ⟨.literal (.number 1), "1", 1⟩
    let two : Lexeme := ⟨.literal (.number 2), "2", 1⟩
    let semicolon : Lexeme := ⟨.semicolon, ";", 1⟩
    let eof : Lexeme := ⟨.eof, "", 1⟩
    parse? [print, one, semicolon, eof] = some ⟨[.print (.literal (.number 1))], []⟩ ∧
      parse? [print, two, semicolon, eof] = some ⟨[.print (.literal (.number 2))], []⟩ ∧
      parse? [print, one, print, two, semicolon, eof] =
        some ⟨[], [⟨.expectedSemicolonAfterValue, print⟩]⟩ :=
  ⟨rfl, rfl, rfl⟩

end Lox
