import Lox.Proofs.Execution.Growth
import Lox.Proofs.Scoping.Faults
import Lox.Proofs.Syntax.Parts

namespace Lox

theorem Expr.Reaches.mem_parts {e part : Expr} {env env' : Environment} {p : Place}
    (h : e.Reaches env p part env') : part ∈ e.parts := by
  induction h
  case here e _ => exact e.mem_parts_self
  case grouping hi | unary hi | assign hi => exact List.mem_cons_of_mem _ hi
  case binaryLeft hi | logicalLeft hi => exact List.mem_cons_of_mem _ <| List.mem_append_left _ hi
  case binaryRight hi | logicalRight hi =>
    exact List.mem_cons_of_mem _ <| List.mem_append_right _ hi

namespace Stmt

theorem Reaches.mem_parts {stmt : Stmt} {m : Machine} {p : Place} {node : Node}
    {env : Environment} (h : stmt.Reaches m p node env) {part : Expr}
    (hn : node = .expression part) : part ∈ stmt.parts := by
  induction h
  case here => contradiction
  case print h | expression h | initial h =>
    cases hn
    exact h.mem_parts
  case ifThenCondition h | ifElseCondition h | loopCondition h =>
    cases hn
    exact List.mem_append_left _ h.mem_parts
  case block hs _ _ hi => exact mem_partsOf.mpr ⟨_, List.mem_of_getElem? hs, hi hn⟩
  case ifThen hi | loop hi => exact List.mem_append_right _ (hi hn)
  case ifElse hi => exact List.mem_append_right _ <| List.mem_append_left _ (hi hn)
  case otherwise hi => exact List.mem_append_right _ <| List.mem_append_right _ (hi hn)
  case nextRound hi => exact hi hn

theorem RunReaches.mem_parts {program : List Stmt} {m : Machine} {p : Place} {part : Expr}
    {env : Environment} (h : RunReaches program m p (.expression part) env) :
    part ∈ partsOf program := by
  cases h
  case mk hs _ h => exact mem_partsOf.mpr ⟨_, List.mem_of_getElem? hs, h.mem_parts rfl⟩

end Stmt

namespace Lexeme

variable {operator o : Lexeme}

theorem applyUnary_ne_misfit (h : operator.token ∈ [Token.bang, .minus]) (v : Value) :
    operator.applyUnary v ≠ .error (.misfit o) := by
  unfold applyUnary
  split
  case h_1 => split <;> nofun
  case h_2 => nofun
  case h_3 => simp_all

theorem decides_ne_misfit (h : operator.token ∈ [Token.keyword .orWord, .keyword .andWord])
    (v : Value) : operator.decides v ≠ .error (.misfit o) := by
  unfold decides
  split
  case h_3 => simp_all
  all_goals nofun

theorem applyBinary_ne_misfit (h : operator.token ∈ [Token.bangEqual, .equalEqual, .greater,
      .greaterEqual, .less, .lessEqual, .minus, .plus, .slash, .star]) (v v' : Value) :
    operator.applyBinary v v' ≠ .error (.misfit o) := by
  unfold applyBinary add onNumbers
  split
  case h_11 => simp_all
  all_goals first | (split <;> nofun) | nofun

end Lexeme

theorem Expr.Raises.not_operatorFits {e : Expr} {env : Environment} {operator : Lexeme}
    (h : e.Raises env (.misfit operator)) : ¬e.OperatorFits := by
  generalize hf : Fault.misfit operator = fault at h
  intro ho
  cases h
  case «variable» | assign => contradiction
  case unary hv => exact Lexeme.applyUnary_ne_misfit ho _ (hf ▸ hv)
  case binary hv => exact Lexeme.applyBinary_ne_misfit ho _ _ (hf ▸ hv)
  case logical hv => exact Lexeme.decides_ne_misfit ho _ (hf ▸ hv)

theorem Expr.eval_ne_misfit {e : Expr} (he : ∀ part ∈ e.parts, part.OperatorFits)
    (env : Environment) (operator : Lexeme) : (e.eval env).1 ≠ .error (.misfit operator) := by
  intro h
  have ⟨_, part, _, hr, hp⟩ := Expr.blames_of_error (Prod.ext h rfl : e.eval env = (_, _))
  exact hp.not_operatorFits <| he part hr.mem_parts

-- The ways in which a run could end that no program is to be blamed for, and no sink: an operator
-- that does not fit its node, and a block that finds no scope to leave.
def Stop.IsCrash : Stop → Prop
  | .fault (.misfit _) => True
  | .unbalanced        => True
  | _                  => False

def Run.machine? : Run → Option Machine
  | done m      => some m
  | stopped _ m => some m
  | unfinished  => none

theorem Machine.GrowsTo.grows {m m' : Machine} {r : Run} (h : m.GrowsTo r)
    (hr : m' ∈ r.machine?) : m.Grows m' := by
  cases r <;> cases hr
  case done => exact h
  case stopped => exact h.left

theorem Stmt.not_isCrash_of_interpret {program : List Stmt}
    (hp : ∀ part ∈ partsOf program, part.OperatorFits) {fuel : Nat} {m m' : Machine} {why : Stop}
    (h : interpret fuel program m = .stopped why m') : ¬why.IsCrash := by
  intro hc
  cases why
  case fault f =>
    cases f
    case error => exact hc
    case misfit =>
      have ⟨_, part, _, hr, hm⟩ := exists_runReaches_of_fault h
      exact hm.not_operatorFits <| hp part hr.mem_parts
  case sinkFull => exact hc
  case unbalanced =>
    have hg := growsTo_interpret fuel program m
    rw [h] at hg
    exact hg.right

namespace Environment

def scopes (env : Environment) : List Scope :=
  env.locals ++ [env.globals]

theorem exists_scopes_define (env : Environment) (name : String) (value : Value) :
    ∃ s ss, env.scopes = s :: ss ∧ (env.define name value).scopes = s.set name value :: ss := by
  have ⟨globals, locals⟩ := env
  cases locals <;> exact ⟨_, _, rfl, rfl⟩

end Environment

namespace Stmt

-- Lexemes that have an end are parsed, and what is parsed does not crash in any environment, with
-- any sink. Nor do any trees with operators that fit.
theorem interpret_never_crashes {lexemes : List Lexeme} (h : ∃ l ∈ lexemes, l.IsEnd) :
    (∃ parsed, parse? lexemes = some parsed ∧ ∀ fuel m,
      (∀ why m', interpret fuel parsed.statements m = .stopped why m' → ¬why.IsCrash) ∧
      ∀ m' ∈ (interpret fuel parsed.statements m).machine?, m'.env.depth = m.env.depth) ∧
    (∀ e : Expr, (∀ part ∈ e.parts, part.OperatorFits) →
      ∀ env operator, (e.eval env).1 ≠ .error (.misfit operator)) ∧
    (∀ program, (∀ part ∈ partsOf program, part.OperatorFits) →
      ∀ fuel m why m', interpret fuel program m = .stopped why m' → ¬why.IsCrash) ∧
    ∀ (env : Environment) name value, ∃ s ss,
      env.scopes = s :: ss ∧ (env.define name value).scopes = s.set name value :: ss := by
  refine ⟨?parsed, fun _ => Expr.eval_ne_misfit, fun _ hp _ _ _ _ => not_isCrash_of_interpret hp,
    Environment.exists_scopes_define⟩
  case parsed =>
    cases parse?_cases lexemes
    case inl hn =>
      have ⟨l, hl, he⟩ := h
      exact absurd he <| hn.right l hl
    case inr hs =>
      have ⟨parsed, _, _, _, hp, _, _, _, hw, _⟩ := hs
      refine ⟨parsed, hp, fun fuel m => ⟨fun why m' hr => ?_, fun m' hm => ?_⟩⟩
      case refine_1 => exact not_isCrash_of_interpret (operatorFits_of_wellFormed hw) hr
      case refine_2 => exact ((growsTo_interpret fuel _ m).grows hm).env.depth_eq

theorem interpret_never_crashes_behind_errors :
    let l (t : Token) : Lexeme := ⟨t, "", 1⟩
    let lexemes := [Token.leftBrace, .identifier "a", .equal, .minus, .semicolon, .rightBrace,
      .keyword .printWord, .bang, .literal .nil, .keyword .orWord, .identifier "a", .semicolon,
      .rightParen, .eof, .keyword .elseWord].map l
    let program : List Stmt := [.block [], .print (.logical (.unary (l .bang) (.literal .nil))
      (l (.keyword .orWord)) (.variable (l (.identifier "a"))))]
    (∃ l ∈ lexemes, l.IsEnd) ∧
      parse? lexemes = some { statements := program, errors := [⟨.expectedExpression, l .semicolon⟩,
        ⟨.expectedExpression, l .rightParen⟩] } ∧
      ∀ fuel m why m', interpret fuel program m = .stopped why m' → ¬why.IsCrash := by
  intro l lexemes program
  have he : ∃ l ∈ lexemes, l.IsEnd := ⟨l .eof, by simp [lexemes], rfl⟩
  have ⟨⟨parsed, hp, hr⟩, _⟩ := interpret_never_crashes he
  have hq : parse? lexemes = some { statements := program, errors := _ } := rfl
  rw [hq] at hp
  cases hp
  exact ⟨he, hq, fun fuel m => (hr fuel m).left⟩

end Stmt
end Lox
