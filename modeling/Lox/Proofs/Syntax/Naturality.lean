import Lox.Proofs.Syntax.Mapping
import Lox.Proofs.Syntax.Soundness.Program

namespace Lox

def ParseError.map (f : Lexeme → Lexeme) (e : ParseError) : ParseError where
  kind   := e.kind
  lexeme := f e.lexeme

def Parsed.map (f : Lexeme → Lexeme) (p : Parsed) : Parsed where
  statements := p.statements.map (Stmt.map f)
  errors     := p.errors.map (ParseError.map f)

variable {α β : Type} {f : Lexeme → Lexeme} {g : α → α} {g' : β → β}

def Reply.map (f : Lexeme → Lexeme) (g : α → α) : Reply α → Reply α
  | done value rest errors   => done (g value) (rest.map f) (errors.map (ParseError.map f))
  | failed error rest errors => failed (error.map f) (rest.map f) (errors.map (ParseError.map f))
  | exhausted                => exhausted

namespace Reply

theorem map_after (errors : List ParseError) (r : Reply α) :
    (r.after errors).map f g = (r.map f g).after (errors.map (ParseError.map f)) := by
  cases r <;> simp [after, map]

theorem andThen_map (r : Reply α) {next next' : α → List Lexeme → Reply β}
    (hn : ∀ value rest, next' (g value) (rest.map f) = (next value rest).map f g') :
    (r.map f g).andThen next' = (r.andThen next).map f g' := by
  cases r
  case done value rest errors => exact (congrArg _ (hn value rest)).trans (map_after errors _).symm
  all_goals rfl

end Reply

namespace Phrase

-- From the other lexemes the second phrase reads what the first one reads, with the other lexemes
-- in it, and finds the same errors at them.
def Agree (f : Lexeme → Lexeme) (g : α → α) (p p' : Phrase α) : Prop :=
  ∀ ls, p' (ls.map f) = (p ls).map f g

theorem Agree.pure {value value' : α} (h : g value = value') :
    Agree f g (Pure.pure value : Phrase α) (Pure.pure value' : Phrase α) :=
  fun _ => h ▸ rfl

theorem Agree.bind {p p' : Phrase α} {next next' : α → Phrase β} (hp : p.Agree f g p')
    (hn : ∀ value, (next value).Agree f g' (next' (g value))) :
    (p >>= next).Agree f g' (p' >>= next') := by
  intro ls
  rw [bind_apply, bind_apply, hp]
  exact Reply.andThen_map (p ls) hn

theorem Agree.of_cons {p p' : Phrase α} (hn : p' [] = (p []).map f g)
    (hc : ∀ l ls, p' (f l :: ls.map f) = (p (l :: ls)).map f g) : p.Agree f g p'
  | []      => hn
  | l :: ls => hc l ls

variable (hf : ∀ l, (f l).token = l.token)

include hf

theorem agree_accept? (t : Token) : (accept? t).Agree f (Option.map f) (accept? t) := by
  refine .of_cons rfl fun l ls => ?_
  simp only [accept?, hf]
  split <;> rfl

theorem agree_expect (t : Token) (kind : ParseErrorKind) :
    (expect t kind).Agree f id (expect t kind) := by
  refine .of_cons rfl fun l ls => ?_
  simp only [expect, hf]
  split <;> rfl

theorem agree_expectName : expectName.Agree f f expectName := by
  refine .of_cons rfl fun l ls => ?_
  simp only [expectName, hf]
  split <;> rfl

theorem Agree.behind {p p' : Phrase α} {t : Token} {kind : ParseErrorKind} (hp : p.Agree f g p') :
    Agree f g (do expect t kind; p) (do expect t kind; p') :=
  (agree_expect hf t kind).bind fun _ => hp

theorem agree_primary {expression : Phrase Expr} (he : expression.Agree f (Expr.map f) expression) :
    (primary expression).Agree f (Expr.map f) (primary expression) := by
  have hg : (primary.group expression).Agree f (Expr.map f) (primary.group expression) :=
    he.bind fun _ => .behind hf <| .pure rfl
  refine .of_cons rfl fun l ls => ?_
  simp only [primary, hf]
  split
  case h_3 => exact hg ls
  all_goals rfl

theorem agree_unary {operand : Phrase Expr} (ho : operand.Agree f (Expr.map f) operand) :
    Agree f (Expr.map f) (unary operand) (unary operand) := by
  intro ls
  induction ls
  case nil => rfl
  case cons l ls hi =>
    simp only [List.map_cons, unary, hf]
    split
    case isTrue => exact hi ▸ Reply.andThen_map (unary operand ls) fun _ _ => rfl
    case isFalse => exact ho (l :: ls)

omit hf in
theorem map_join (level : Level) (left : Expr) (operator : Lexeme) (right : Expr) :
    (level.join left operator right).map f =
      level.join (left.map f) (f operator) (right.map f) := by
  cases level <;> rfl

theorem agree_chain (level : Level) {operand : Phrase Expr}
    (ho : operand.Agree f (Expr.map f) operand) (bound : Nat) (left : Expr) :
    (chain level operand bound left).Agree f (Expr.map f)
      (chain level operand bound (left.map f)) := by
  induction bound generalizing left
  case zero => exact fun _ => rfl
  case succ bound hi =>
    refine .of_cons rfl fun l ls => ?_
    simp only [chain, hf]
    split
    case isTrue =>
      refine ho ls ▸ Reply.andThen_map (operand ls) fun right rest => ?_
      exact map_join level left l right ▸ hi _ rest
    case isFalse => rfl

theorem agree_operation (bound : Nat) {operand : Phrase Expr}
    (ho : operand.Agree f (Expr.map f) operand) (levels : List Level) :
    (operation bound operand levels).Agree f (Expr.map f) (operation bound operand levels) := by
  induction levels
  case nil => exact ho
  case cons level tighter hi => exact hi.bind <| agree_chain hf level hi bound

theorem agree_expression (bound : Nat) :
    (expression bound).Agree f (Expr.map f) (expression bound) := by
  induction bound
  case zero => exact fun _ => rfl
  case succ bound hi =>
    have hu := agree_unary hf <| agree_primary hf hi
    refine (agree_operation hf bound hu Level.all).bind fun target => ?_
    refine (agree_accept? hf .equal).bind fun equals? => ?_
    cases equals?
    case none => exact .pure rfl
    case some equals =>
      refine hi.bind fun value => ?_
      cases target
      case «variable» name => exact .pure rfl
      all_goals exact fun _ => rfl

theorem agree_declare {expression : Phrase Expr} (he : expression.Agree f (Expr.map f) expression) :
    (declare expression).Agree f (Stmt.map f) (declare expression) := by
  refine (agree_expectName hf).bind fun name => ?_
  refine (agree_accept? hf .equal).bind fun equals? => ?_
  cases equals?
  case none => exact .behind hf <| .pure <| by rw [Stmt.map]
  case some => exact he.bind fun initial => .behind hf <| .pure <| by rw [Stmt.map]

theorem agree_declaration {expression : Phrase Expr} {statement : Phrase Stmt}
    (he : expression.Agree f (Expr.map f) expression)
    (hs : statement.Agree f (Stmt.map f) statement) :
    (declaration expression statement).Agree f (Stmt.map f) (declaration expression statement) := by
  refine .of_cons rfl fun l ls => ?_
  simp only [declaration, hf]
  split
  case h_1 => exact agree_declare hf he ls
  case h_2 => exact hs (l :: ls)

theorem resume?_map (ls : List Lexeme) : resume? (ls.map f) = (resume? ls).map (List.map f) := by
  induction ls
  case nil => rfl
  case cons l ls hi =>
    simp only [List.map_cons, resume?, hf]
    split
    case h_1 | h_2 => rfl
    case h_3 =>
      cases ls
      case nil => rfl
      case cons next ls =>
        simp only [List.map_cons, hf] at hi ⊢
        split
        case isTrue => rfl
        case isFalse => exact hi

theorem agree_recovered {phrase : Phrase α} (hp : phrase.Agree f g phrase) :
    (recovered phrase).Agree f (Option.map g) (recovered phrase) := by
  intro ls
  simp only [recovered, hp ls]
  cases phrase ls
  case failed error rest errors =>
    simp only [Reply.map, resume?_map hf]
    cases resume? rest
    case none => rfl
    case some => simp
  all_goals rfl

theorem agree_declarations (closes : Token → Bool) {declaration : Phrase Stmt}
    (hd : declaration.Agree f (Stmt.map f) declaration) (bound : Nat) :
    (declarations closes declaration bound).Agree f (List.map (Stmt.map f))
      (declarations closes declaration bound) := by
  induction bound
  case zero => exact fun _ => rfl
  case succ bound hi =>
    refine .of_cons rfl fun l ls => ?_
    simp only [declarations, hf]
    split
    case isTrue => rfl
    case isFalse =>
      refine agree_recovered hf hd (l :: ls) ▸ Reply.andThen_map _ fun stmt? rest => ?_
      refine hi rest ▸ Reply.andThen_map _ fun stmts rest => ?_
      cases stmt? <;> rfl

theorem agree_block {declarations : Phrase (List Stmt)}
    (hd : declarations.Agree f (List.map (Stmt.map f)) declarations) :
    (block declarations).Agree f (Stmt.map f) (block declarations) := by
  refine hd.bind fun body => .behind hf <| .pure ?_
  rw [Stmt.map, Stmt.mapAll_eq_map]

theorem Agree.condition {expression : Phrase Expr}
    (he : expression.Agree f (Expr.map f) expression) {kind₁ kind₂ : ParseErrorKind}
    {next next' : Expr → Phrase α} (hn : ∀ c, (next c).Agree f g (next' (c.map f))) :
    Agree f g
      (do expect .leftParen kind₁; let c ← expression; expect .rightParen kind₂; next c)
      (do expect .leftParen kind₁; let c ← expression; expect .rightParen kind₂; next' c) :=
  .behind hf <| he.bind fun c => .behind hf (hn c)

theorem agree_conditional {expression : Phrase Expr} {statement : Phrase Stmt}
    (he : expression.Agree f (Expr.map f) expression)
    (hs : statement.Agree f (Stmt.map f) statement) :
    (conditional expression statement).Agree f (Stmt.map f) (conditional expression statement) := by
  refine .condition hf he fun c => hs.bind fun branch => ?_
  refine (agree_accept? hf _).bind fun else? => ?_
  cases else?
  case none => exact .pure <| by rw [Stmt.map]
  case some => exact hs.bind fun otherwise => .pure <| by rw [Stmt.map]

theorem agree_loop {expression : Phrase Expr} {statement : Phrase Stmt}
    (he : expression.Agree f (Expr.map f) expression)
    (hs : statement.Agree f (Stmt.map f) statement) :
    (loop expression statement).Agree f (Stmt.map f) (loop expression statement) :=
  .condition hf he fun c => hs.bind fun body => .pure <| by rw [Stmt.map]

theorem agree_print {expression : Phrase Expr} (he : expression.Agree f (Expr.map f) expression) :
    (print expression).Agree f (Stmt.map f) (print expression) :=
  he.bind fun value => .behind hf <| .pure <| by rw [Stmt.map]

theorem agree_bare {expression : Phrase Expr} (he : expression.Agree f (Expr.map f) expression) :
    (bare expression).Agree f (Stmt.map f) (bare expression) :=
  he.bind fun value => .behind hf <| .pure <| by rw [Stmt.map]

theorem agree_statement (bound : Nat) :
    (statement bound).Agree f (Stmt.map f) (statement bound) := by
  induction bound
  case zero => exact fun _ => rfl
  case succ bound hi =>
    have he := agree_expression hf bound
    have hd := agree_declarations hf closesBlock (agree_declaration hf he hi) bound
    refine .of_cons rfl fun l ls => ?_
    simp only [statement, hf]
    split
    case h_1 => exact agree_conditional hf he hi ls
    case h_2 => exact agree_loop hf he hi ls
    case h_3 => exact agree_print hf he ls
    case h_4 => exact agree_block hf hd ls
    case h_5 => exact agree_bare hf (agree_expression hf (bound + 1)) (l :: ls)

theorem agree_program (bound : Nat) :
    (program bound).Agree f (List.map (Stmt.map f)) (program bound) :=
  agree_declarations hf _
    (agree_declaration hf (agree_expression hf bound) (agree_statement hf bound)) bound

end Phrase

theorem parse?_map (hf : ∀ l, (f l).token = l.token) (ls : List Lexeme) :
    parse? (ls.map f) = (parse? ls).map (Parsed.map f) := by
  simp only [parse?, List.length_map, Phrase.agree_program hf _ ls]
  cases Phrase.program (ls.length + 1) ls <;> rfl

theorem mem_of_mem_errors {ls : List Lexeme} {parsed : Parsed} (h : parse? ls = some parsed)
    {e : ParseError} (he : e ∈ parsed.errors) : e.lexeme ∈ ls := by
  let f (l : Lexeme) : Lexeme := if l ∈ ls then l else { l with line := l.line + 1 }
  have hf : ∀ l, (f l).token = l.token := fun l => by
    simp only [f]
    split <;> rfl
  have hl : ls.map f = ls := (List.map_congr_left fun l hm => if_pos hm).trans <| List.map_id' ls
  have hp : parsed.map f = parsed := by
    have hp := parse?_map hf ls
    simp only [hl, h, Option.map_some, Option.some.injEq] at hp
    exact hp.symm
  have he : e.map f = e :=
    List.map_inj_left.mp ((congrArg Parsed.errors hp).trans (List.map_id' _).symm) e he
  by_contra hn
  have hs : (f e.lexeme).line = e.lexeme.line := congrArg (·.lexeme.line) he
  simp [f, hn] at hs

-- How lexemes are spelled and where they are is not looked at. What is read holds the lexemes that
-- stand in the same places, and the same ones are blamed.
theorem parse?_reads_tokens {f : Lexeme → Lexeme} (hf : ∀ l, (f l).token = l.token)
    (before : List Lexeme) {eof : Lexeme} (he : eof.IsEnd) :
    ∃ parsed, parse? (before ++ [eof]) = some parsed ∧
      parse? ((before ++ [eof]).map f) = some {
        statements := parsed.statements.map (Stmt.map f)
        errors := parsed.errors.map fun e => ⟨e.kind, f e.lexeme⟩ } ∧
      ∀ e ∈ parsed.errors, e.lexeme ∈ before ++ [eof] := by
  have hm := parse?_map hf (before ++ [eof])
  cases parse?_cases (before ++ [eof])
  case inl hn => exact absurd he <| hn.right eof <| List.mem_append_right _ List.mem_cons_self
  case inr hs =>
    have ⟨parsed, _, _, _, hp, _⟩ := hs
    rw [hp] at hm
    exact ⟨parsed, hp, hm, fun _ => mem_of_mem_errors hp⟩

theorem parse?_reads_tokens_of_errors_in_block :
    let before : List Lexeme := [⟨.leftBrace, "\x7b", 1⟩, ⟨.keyword .varWord, "var", 1⟩,
      ⟨.literal .nil, "nil", 1⟩, ⟨.semicolon, ";", 1⟩, ⟨.literal .nil, "nil", 2⟩, ⟨.equal, "=", 2⟩,
      ⟨.identifier "a", "a", 2⟩, ⟨.equal, "=", 2⟩, ⟨.identifier "b", "b", 2⟩, ⟨.semicolon, ";", 2⟩,
      ⟨.keyword .printWord, "print", 3⟩, ⟨.bang, "!", 3⟩, ⟨.identifier "c", "c", 3⟩]
    let eof : Lexeme := ⟨.eof, "", 4⟩
    let f (l : Lexeme) : Lexeme := { l with content := "", line := l.content.length }
    (∀ l, (f l).token = l.token) ∧ eof.IsEnd ∧ ∃ parsed,
      parse? (before ++ [eof]) = some parsed ∧ parsed.errors.map (·.lexeme.line) = [1, 2, 4, 4] ∧
        parse? ((before ++ [eof]).map f) = some {
          statements := parsed.statements.map (Stmt.map f)
          errors := parsed.errors.map fun e => ⟨e.kind, f e.lexeme⟩ } := by
  intro before eof f
  have hf (l : Lexeme) : (f l).token = l.token := rfl
  obtain ⟨parsed, hp, hm, _⟩ := parse?_reads_tokens hf before (rfl : eof.IsEnd)
  have he : (parse? (before ++ [eof])).map (fun p => p.errors.map (·.lexeme.line)) =
    some [1, 2, 4, 4] := by decide +kernel
  rw [hp] at he
  exact ⟨hf, rfl, parsed, hp, Option.some.inj he, hm⟩

end Lox
