import Lox.Proofs.Syntax.Termination

namespace Lox

open List (Forall₂)

namespace Reply

def following (stmts : List Stmt) : Reply (List Stmt) → Reply (List Stmt)
  | done later rest errors   => done (stmts ++ later) rest errors
  | failed error rest errors => failed error rest errors
  | exhausted                => exhausted

@[simp]
theorem following_nil (r : Reply (List Stmt)) : r.following [] = r := by
  cases r <;> rfl

theorem following_following (stmts stmts' : List Stmt) (r : Reply (List Stmt)) :
    (r.following stmts').following stmts = r.following (stmts ++ stmts') := by
  cases r
  case done => simp only [following, List.append_assoc]
  all_goals rfl

end Reply

theorem Phrase.expect_bind_of_ne {α : Type} {l : Lexeme} {t : Token} (h : l.token ≠ t)
    (kind : ParseErrorKind) (p : Phrase α) (ls : List Lexeme) :
    (do expect t kind; p : Phrase α) (l :: ls) = .failed ⟨kind, l⟩ (l :: ls) [] :=
  congrArg (Reply.andThen · _) (if_neg h)

theorem Token.notMem_closing {t : Token} (h : t.opensDeclaration) : t ∉ [rightBrace, eof] := by
  cases t <;> first | contradiction | simp

theorem Phrase.closesProgram_eq_false {t : Token} (h : t ∉ [.rightBrace, .eof]) :
    closesProgram t = false :=
  decide_eq_false fun he => h (by simp [he])

theorem Phrase.closesBlock_eq_false {t : Token} (h : t ∉ [.rightBrace, .eof]) :
    closesBlock t = false := by
  simpa [closesBlock] using h

namespace Phrase.Unbounded

variable {closes : Token → Bool} {l : Lexeme} {ls rest : List Lexeme}

theorem declarations_of_round (hc : closes .eof) (h : closes l.token = false)
    {stmt? : Option Stmt} {errors : List ParseError}
    (hr : round (l :: ls) = .done stmt? rest errors) :
    declarations closes (l :: ls) =
      ((declarations closes rest).following stmt?.toList).after errors := by
  rw [declarations_cons hc h, hr, Reply.andThen]
  cases declarations closes rest
  case done => simp only [Reply.andThen, Reply.after, Reply.following, List.append_nil]
  all_goals rfl

theorem round_of_isRead {stmt : Stmt} (h : stmt.IsRead) {used : List Lexeme} {next : Lexeme}
    (hf : Forall₂ Terminal.Fits stmt.yield used) (hn : next.token ≠ .keyword .elseWord)
    (rest : List Lexeme) : round (used ++ next :: rest) = .done (some stmt) (next :: rest) [] := by
  have hb : (used ++ next :: rest).length < used.length + rest.length + 2 := by
    simp only [List.length_append, List.length_cons]
    omega
  have hd := h _ used next rest hf (Nat.lt_succ_self _) fun _ => hn
  exact recovered_of_done <| (alike_declaration _ _ hb).trans hd

-- A round of the loop is put before what is read of the lexemes that it leaves, and a text of the
-- grammar takes one round for each statement. So statements that have been read do not change what
-- is read behind them.
theorem declarations_of_yields (he : closes .eof)
    (hc : ∀ t, t ∉ [.rightBrace, .eof] → closes t = false) {stmts : List Stmt}
    (hw : ∀ stmt ∈ stmts, stmt.WellFormed) {used : List Lexeme}
    (hf : Forall₂ Terminal.Fits (Stmt.yields stmts) used) {next : Lexeme}
    (hn : next.token ≠ .keyword .elseWord) (rest : List Lexeme) :
    declarations closes (used ++ next :: rest) =
      (declarations closes (next :: rest)).following stmts := by
  induction stmts generalizing used
  case nil =>
    cases hf
    exact (Reply.following_nil _).symm
  case cons stmt stmts hi =>
    have ⟨hw₁, hw₂⟩ := List.forall_mem_cons.mp hw
    obtain ⟨used₁, used₂, rfl, hf₁, hf₂⟩ := Terminal.forall₂_fits_append hf
    obtain ⟨next', rest', hl, hn'⟩ := Stmt.ne_else_of_yields hw₂ hf₂ hn rest
    obtain ⟨l, ls, rfl, ho, _⟩ := hw₁.opens hf₁
    have hr := round_of_isRead hw₁.isRead hf₁ hn' rest'
    rw [← hl, List.cons_append] at hr
    rw [List.append_assoc, List.cons_append,
      declarations_of_round he (hc _ (Token.notMem_closing ho)) hr, hi hw₂ hf₂,
      Reply.after_nil, Reply.following_following]
    rfl

theorem round_of_block {opening closing : Lexeme} (ho : opening.token = .leftBrace)
    (hc : closing.token = .rightBrace) {stmts : List Stmt} {errors : List ParseError}
    (h : declarations closesBlock ls = .done stmts (closing :: rest) errors) :
    round (opening :: ls) = .done (some (.block stmts)) rest errors := by
  have hb : block (declarations closesBlock) ls = .done (.block stmts) rest errors := by
    simp only [block, bind_apply, h, Reply.andThen, expect_of_eq hc, pure_apply, Reply.after,
      List.append_nil]
  rw [round, recovered, declaration_of_ne _ _ (by rw [ho]; decide), statement_cons, ho]
  simp only [hb]

theorem declarations_of_isEnd (h : l.IsEnd) (ls : List Lexeme) :
    declarations closesProgram (l :: ls) = .done [] (l :: ls) [] :=
  declarations_of_closes (decide_eq_true h) ls

theorem program_of_yields {stmts : List Stmt} (hw : ∀ stmt ∈ stmts, stmt.WellFormed)
    {used : List Lexeme} (hf : Forall₂ Terminal.Fits (Stmt.yields stmts) used) (h : l.IsEnd)
    (ls : List Lexeme) :
    declarations closesProgram (used ++ l :: ls) = .done stmts (l :: ls) [] := by
  have hn : l.token ≠ .keyword .elseWord := by rw [h]; nofun
  rw [declarations_of_yields rfl (fun _ => closesProgram_eq_false) hw hf hn ls,
    declarations_of_isEnd h, Reply.following, List.append_nil]

end Phrase.Unbounded

theorem parse?_of_block {opening closing eof : Lexeme} (ho : opening.token = .leftBrace)
    (hc : closing.token = .rightBrace) (he : eof.IsEnd) {ls : List Lexeme} {stmts : List Stmt}
    {errors : List ParseError}
    (h : Phrase.Unbounded.declarations Phrase.closesBlock ls = .done stmts [closing, eof] errors) :
    parse? (opening :: ls) = some ⟨[.block stmts], errors⟩ := by
  have hr := Phrase.Unbounded.round_of_block ho hc h
  have hn : Phrase.closesProgram opening.token = false := by rw [ho]; rfl
  refine parse?_eq_some_iff.mpr ⟨[eof], ?_⟩
  rw [Phrase.Unbounded.declarations_of_round rfl hn hr,
    Phrase.Unbounded.declarations_of_isEnd he]
  simp only [Reply.following, Reply.after, Option.toList, List.append_nil]

end Lox
