import Lox.Proofs.Session.Provenance
import Lox.Proofs.Syntax.Naturality

namespace Lox

def RuntimeErrorKind.RaisedBy : RuntimeErrorKind → Lexeme → Expr → Prop
  | operandMustBeNumber, l, e => ∃ operand, e = .unary l operand
  | undefinedVariable,   l, e => e = .variable l ∨ ∃ value, e = .assign l value
  | _,                   l, e => ∃ left right, e = .binary left l right

theorem RuntimeErrorKind.IsAt.ne_eof {kind : RuntimeErrorKind} {t : Token} (h : kind.IsAt t) :
    t ≠ .eof := by
  rintro rfl
  cases kind <;> simp [IsAt] at h

namespace Location

variable {l : Lexeme}

theorem isEnd_of_eq_atEnd (h : of l = .atEnd) : l.IsEnd := by
  by_contra he
  exact absurd ((if_neg he).symm.trans h) nofun

theorem of_eq_atText (h : ¬l.IsEnd) : of l = .atText l.content :=
  if_neg h

end Location

namespace Lexeme

variable {operator : Lexeme} {e : RuntimeError}

theorem kind_of_applyUnary {v : Value} (h : operator.applyUnary v = .error (.error e)) :
    e.kind = .operandMustBeNumber := by
  simp only [applyUnary] at h
  split at h
  case h_1 =>
    split at h <;> cases h
    rfl
  all_goals cases h

theorem kind_of_applyBinary {v v' : Value} (h : operator.applyBinary v v' = .error (.error e)) :
    e.kind = .operandsMustBeNumbers ∨ e.kind = .operandsMustBeNumbersOrStrings := by
  simp only [applyBinary, add, onNumbers] at h
  split at h
  case h_1 =>
    split at h <;> cases h
    exact .inr rfl
  case h_9 | h_10 | h_11 => cases h
  all_goals
    split at h <;> cases h
    exact .inl rfl

end Lexeme

theorem Expr.Raises.raisedBy {part : Expr} {env : Environment} {e : RuntimeError}
    (h : part.Raises env (.error e)) : e.kind.RaisedBy e.lexeme part := by
  generalize hf : Fault.error e = fault at h
  cases h
  case «variable» =>
    cases hf
    exact .inl rfl
  case assign =>
    cases hf
    exact .inr ⟨_, rfl⟩
  case unary hv =>
    have hl := (Lexeme.isAt_of_applyUnary (hf ▸ hv)).left
    simp only [Lexeme.kind_of_applyUnary (hf ▸ hv), RuntimeErrorKind.RaisedBy, hl]
    exact ⟨_, rfl⟩
  case binary hv =>
    have hl := (Lexeme.isAt_of_applyBinary (hf ▸ hv)).left
    rcases Lexeme.kind_of_applyBinary (hf ▸ hv) with hk | hk
    all_goals
      simp only [hk, RuntimeErrorKind.RaisedBy, hl]
      exact ⟨_, _, rfl⟩
  case logical hv => exact absurd (hf ▸ hv) <| Lexeme.decides_ne_error _

namespace Session

variable {source : String}

theorem exists_raisedBy {fuel : Nat} {m m' : Machine} {e : RuntimeError}
    (h : Stmt.interpret fuel (program source) m = .stopped (.fault (.error e)) m') :
    ∃ part ∈ Stmt.partsOf (program source), e.kind.RaisedBy e.lexeme part := by
  have ⟨_, part, _, hr, hp⟩ := Stmt.exists_runReaches_of_fault h
  exact ⟨part, hr.mem_parts, hp.raisedBy⟩

theorem mem_lexemes_of_mem_errors {e : ParseError}
    (h : e ∈ (Parsed.ofLexemes (Scan.ofSource source).lexemes).errors) :
    e.lexeme ∈ (Scan.ofSource source).lexemes :=
  mem_of_mem_errors (parse?_lexemes source) h

inductive Reports (s : Session) (source : String) : Message → Prop
  | static (h : m ∈ staticMessages source) : Reports s source m
  | runtime (h : Stmt.interpret fuel (program source) s.machine = .stopped (.fault (.error e)) m) :
    Reports s source e.message

theorem exists_reports (s : Session) (source : String) (fuel : Nat) :
    ∃ ms, (s.run fuel source).2.errors = (s.errors.report ms).2 ∧ ∀ m ∈ ms, s.Reports source m := by
  by_cases hm : staticMessages source = []
  case neg => exact ⟨_, by rw [run_of_messages hm], fun m => .static⟩
  case pos =>
    rw [run_of_program hm]
    cases hr : Stmt.interpret fuel (program source) s.machine
    case done | unfinished => exact ⟨[], rfl, nofun⟩
    case stopped why m =>
      cases why
      case fault f =>
        cases f
        case misfit => exact ⟨[], rfl, nofun⟩
        case error e =>
          refine ⟨[e.message], ?_, fun _ h => List.mem_singleton.mp h ▸ .runtime hr⟩
          rw [conclude_fault, Sink.report_singleton]
      all_goals exact ⟨[], rfl, nofun⟩

theorem Reports.line {s : Session} {m : Message} (h : s.Reports source m) :
    1 ≤ m.line ∧ m.line ≤ 1 + lineBreaks source := by
  cases h
  case static h =>
    simp only [staticMessages, List.mem_append, List.mem_map] at h
    rcases h with ⟨e, he, rfl⟩ | ⟨e, he, rfl⟩
    case inl => exact Scan.line_of_mem_errors he
    case inr => exact Scan.line_of_mem_lexemes (mem_lexemes_of_mem_errors he)
  case runtime h => exact Scan.line_of_mem_lexemes (of_interpret h).mem

-- All that is reported has its place in the source: errors of the grammar at a lexeme, or at the
-- end of the file, and errors of a run at the operator or the name that has raised them.
theorem reports_places (s : Session) (source : String) :
    (∀ e ∈ (Parsed.ofLexemes (Scan.ofSource source).lexemes).errors,
      ∃ l ∈ (Scan.ofSource source).lexemes, e.message.line = l.line ∧ e.message.location = .of l ∧
        (e.message.location = .atEnd → l = ⟨.eof, "", 1 + lineBreaks source⟩)) ∧
    (∀ fuel e m, Stmt.interpret fuel (program source) s.machine = .stopped (.fault (.error e)) m →
      ∃ l ∈ (Scan.ofSource source).lexemes, e.message.line = l.line ∧
        e.message.location = .atText l.content ∧ e.kind.IsAt l.token ∧
        (e.kind = .undefinedVariable → ∃ name, l.token = .identifier name ∧
          e.message.content = "Undefined variable '" ++ name ++ "'.") ∧
        ∃ part ∈ Stmt.partsOf (program source), e.kind.RaisedBy l part) ∧
    ∀ fuel, ∃ ms, (s.run fuel source).2.errors = (s.errors.report ms).2 ∧
      ∀ m ∈ ms, s.Reports source m ∧ 1 ≤ m.line ∧ m.line ≤ 1 + lineBreaks source := by
  refine ⟨fun e he => ?grammar, fun fuel e m hr => ?run, fun fuel => ?lines⟩
  case grammar =>
    have hm := mem_lexemes_of_mem_errors he
    exact ⟨e.lexeme, hm, rfl, rfl, fun hl => Scan.eq_of_isEnd hm <| Location.isEnd_of_eq_atEnd hl⟩
  case run =>
    have ⟨hm, ht⟩ := of_interpret hr
    refine ⟨e.lexeme, hm, rfl, Location.of_eq_atText ht.ne_eof, ht, fun hk => ?_, exists_raisedBy hr⟩
    simp only [hk] at ht
    have ⟨name, ht⟩ := ht
    refine ⟨name, ht, ?_⟩
    simp only [RuntimeError.message, RuntimeError.text, hk, Scan.content_of_identifier hm ht]
  case lines =>
    have ⟨ms, he, hm⟩ := s.exists_reports source fuel
    exact ⟨ms, he, fun m h => ⟨hm m h, (hm m h).line⟩⟩

end Session
end Lox
