import Lox.Proofs.Lexing.Items
import Lox.Proofs.Session.Running

namespace Lox

-- An error of a run is found at an operator that its kind is about, or at a name. So it is never
-- found at the end of the file, and never at a string.
def RuntimeErrorKind.IsAt : RuntimeErrorKind → Token → Prop
  | operandMustBeNumber,            t => t = .minus
  | operandsMustBeNumbers,          t => t ∈ [Token.minus, .star, .slash, .greater, .greaterEqual,
      .less, .lessEqual]
  | operandsMustBeNumbersOrStrings, t => t = .plus
  | undefinedVariable,              t => ∃ name, t = .identifier name

namespace Lexeme

variable {operator : Lexeme} {e : RuntimeError}

theorem isAt_of_applyUnary {v : Value} (h : operator.applyUnary v = .error (.error e)) :
    e.lexeme = operator ∧ e.kind.IsAt operator.token := by
  simp only [applyUnary] at h
  split at h
  case h_1 ht =>
    split at h <;> cases h
    exact ⟨rfl, ht⟩
  all_goals cases h

theorem isAt_of_applyBinary {v v' : Value} (h : operator.applyBinary v v' = .error (.error e)) :
    e.lexeme = operator ∧ e.kind.IsAt operator.token := by
  simp only [applyBinary, add, onNumbers] at h
  split at h
  case h_1 ht =>
    split at h <;> cases h
    exact ⟨rfl, ht⟩
  case h_9 | h_10 | h_11 => cases h
  all_goals
    rename_i ht
    split at h <;> cases h
    exact ⟨rfl, by simp [RuntimeErrorKind.IsAt, ht]⟩

theorem decides_ne_error (v : Value) : operator.decides v ≠ .error (.error e) := by
  simp only [decides]
  split <;> nofun

end Lexeme

theorem Expr.Raises.isAt {part : Expr} {env : Environment} {e : RuntimeError}
    (h : part.Raises env (.error e)) (hn : part.NameFits) :
    e.kind.IsAt e.lexeme.token ∧ .held e.lexeme ∈ part.yield := by
  generalize hf : Fault.error e = fault at h
  cases h
  case «variable» | assign =>
    cases hf
    exact ⟨hn, by simp [yield]⟩
  case unary hv =>
    have h := Lexeme.isAt_of_applyUnary (hf ▸ hv)
    exact ⟨h.left ▸ h.right, by simp [yield, h.left]⟩
  case binary hv =>
    have h := Lexeme.isAt_of_applyBinary (hf ▸ hv)
    exact ⟨h.left ▸ h.right, by simp [yield, h.left]⟩
  case logical hv => exact absurd (hf ▸ hv) <| Lexeme.decides_ne_error _

theorem Stmt.isAt_of_interpret {program : List Stmt} (hw : ∀ stmt ∈ program, stmt.WellFormed)
    {fuel : Nat} {m m' : Machine} {e : RuntimeError}
    (h : interpret fuel program m = .stopped (.fault (.error e)) m') :
    e.kind.IsAt e.lexeme.token ∧ .held e.lexeme ∈ yields program := by
  have ⟨_, part, _, hr, hp⟩ := exists_runReaches_of_fault h
  have ⟨_, hd⟩ := derives_of_mem_partsOf hw hr.mem_parts
  have ⟨ht, hy⟩ := hp.isAt hd.nameFits
  exact ⟨ht, yields_subset_of_mem_partsOf program hr.mem_parts hy⟩

theorem Terminal.exists_of_fits {ts : List Terminal} {ls : List Lexeme} {t : Terminal}
    (h : List.Forall₂ Fits ts ls) (hm : t ∈ ts) : ∃ l ∈ ls, t.Fits l := by
  induction h
  case nil => contradiction
  case cons hf _ hi =>
    cases hm
    case head => exact ⟨_, List.mem_cons_self, hf⟩
    case tail hm =>
      have ⟨l, hl, hf⟩ := hi hm
      exact ⟨l, List.mem_cons_of_mem _ hl, hf⟩

structure RuntimeError.Of (source : String) (e : RuntimeError) : Prop where
  mem  : e.lexeme ∈ (Scan.ofSource source).lexemes
  isAt : e.kind.IsAt e.lexeme.token

namespace Session

variable {source : String}

theorem parse?_lexemes (source : String) :
    parse? (Scan.ofSource source).lexemes = some (Parsed.ofLexemes (Scan.ofSource source).lexemes) := by
  have he : (⟨.eof, "", 1 + lineBreaks source⟩ : Lexeme) ∈ (Scan.ofSource source).lexemes := by
    simp [Scan.lexemes_ofSource]
  cases parse?_cases (Scan.ofSource source).lexemes
  case inl hn => exact absurd rfl <| hn.right _ he
  case inr hs =>
    have ⟨parsed, _, _, _, hp, _⟩ := hs
    simp only [Parsed.ofLexemes, hp, Option.getD_some]

theorem exists_fits {t : Terminal} (h : t ∈ Stmt.yields (program source)) :
    ∃ l ∈ Scan.lexemesBefore source, t.Fits l := by
  have hp := parse?_lexemes source
  cases parse?_cases (Scan.ofSource source).lexemes
  case inl hn =>
    simp only [hn.left] at hp
    contradiction
  case inr hs =>
    have ⟨parsed, used, eof, rest, hq, hl, _, he, _, kept, hk, hf, _⟩ := hs
    cases hq.symm.trans hp
    have ⟨l, hm, hf⟩ := Terminal.exists_of_fits hf h
    rw [Scan.lexemes_ofSource] at hl
    have hu := eq_of_append_end (fun _ => Scan.not_isEnd_of_mem_lexemesBefore) he hl
    exact ⟨l, hu ▸ hk.subset hm, hf⟩

theorem mem_lexemes_of_held {l : Lexeme} (h : .held l ∈ Stmt.yields (program source)) :
    l ∈ (Scan.ofSource source).lexemes := by
  have ⟨l', hm, (he : l' = l)⟩ := exists_fits h
  rw [Scan.lexemes_ofSource, ← he]
  exact List.mem_append_left _ hm

theorem of_interpret {fuel : Nat} {m m' : Machine} {e : RuntimeError}
    (h : Stmt.interpret fuel (program source) m = .stopped (.fault (.error e)) m') : e.Of source := by
  have ⟨ht, hy⟩ := Stmt.isAt_of_interpret (wellFormed_program source) h
  exact ⟨mem_lexemes_of_held hy, ht⟩

end Session
end Lox
