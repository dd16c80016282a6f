import Lox.Proofs.Scoping.Reaching
import Lox.Proofs.Syntax.Soundness.Program

namespace Lox

namespace Expr

inductive Raises : Expr → Environment → Fault → Prop
  | variable (h : env.get? name.content = none) : Raises (.variable name) env name.undefined
  | assign (hv : eval value env = (.ok v, env₁)) (h : env₁.assign? name.content v = none) :
    Raises (.assign name value) env name.undefined
  | unary (hv : eval operand env = (.ok v, env₁)) (h : operator.applyUnary v = .error fault) :
    Raises (.unary operator operand) env fault
  | binary (hl : eval left env = (.ok v, env₁)) (hr : eval right env₁ = (.ok v', env₂))
    (h : operator.applyBinary v v' = .error fault) : Raises (.binary left operator right) env fault
  | logical (hl : eval left env = (.ok v, env₁)) (h : operator.decides v = .error fault) :
    Raises (.logical left operator right) env fault

-- A part that the evaluation reaches raises the fault by itself, in the environment in which it is
-- reached. Every fault of an evaluation comes about in this way, so what can be a fault is told by
-- the parts.
def Blames (e : Expr) (env : Environment) (fault : Fault) : Prop :=
  ∃ p part env₁, e.Reaches env p part env₁ ∧ part.Raises env₁ fault

variable {env : Environment} {fault : Fault}

theorem Raises.blames {e : Expr} (h : e.Raises env fault) : e.Blames env fault :=
  ⟨[], e, env, .here, h⟩

theorem Blames.of_part {e e' : Expr} {env' : Environment} {i : Nat} (h : e'.Blames env' fault)
    (hr : ∀ {p part env₁}, e'.Reaches env' p part env₁ → e.Reaches env (i :: p) part env₁) :
    e.Blames env fault := by
  obtain ⟨p, part, env₁, h, hp⟩ := h
  exact ⟨i :: p, part, env₁, hr h, hp⟩

theorem blames_of_error {e : Expr} {env' : Environment} (h : e.eval env = (.error fault, env')) :
    e.Blames env fault := by
  induction e generalizing env env'
  case literal => cases h
  case «variable» name =>
    rw [eval] at h
    split at h
    case h_1 => cases h
    case h_2 hg =>
      cases h
      exact (Raises.variable hg).blames
  case grouping hi => exact (hi h).of_part .grouping
  case unary operator operand hi =>
    rw [eval] at h
    rcases he : operand.eval env with ⟨_ | v, env₁⟩
    all_goals simp only [he] at h
    case error =>
      cases h
      exact (hi he).of_part .unary
    case ok => exact (Raises.unary he <| congrArg Prod.fst h).blames
  case binary left operator right hi₁ hi₂ =>
    rw [eval] at h
    rcases he₁ : left.eval env with ⟨_ | v, env₁⟩
    all_goals simp only [he₁] at h
    case error =>
      cases h
      exact (hi₁ he₁).of_part .binaryLeft
    case ok =>
      rcases he₂ : right.eval env₁ with ⟨_ | v', env₂⟩
      all_goals simp only [he₂] at h
      case error =>
        cases h
        exact (hi₂ he₂).of_part <| .binaryRight he₁
      case ok => exact (Raises.binary he₁ he₂ <| congrArg Prod.fst h).blames
  case logical left operator right hi₁ hi₂ =>
    rw [eval] at h
    rcases he : left.eval env with ⟨_ | v, env₁⟩
    all_goals simp only [he] at h
    case error =>
      cases h
      exact (hi₁ he).of_part .logicalLeft
    case ok =>
      rcases hd : operator.decides v with _ | _ | _
      all_goals simp only [hd] at h
      case error =>
        cases h
        exact (Raises.logical he hd).blames
      case ok.true => cases h
      case ok.false => exact (hi₂ h).of_part <| .logicalRight he hd
  case assign name value hi =>
    rw [eval] at h
    rcases he : value.eval env with ⟨_ | v, env₁⟩
    all_goals simp only [he] at h
    case error =>
      cases h
      exact (hi he).of_part .assign
    case ok =>
      split at h
      case h_1 => cases h
      case h_2 ha =>
        cases h
        exact (Raises.assign he ha).blames

end Expr

theorem Machine.eval_env {m m' : Machine} {e : Expr} {result : Except Fault Value}
    (h : m.eval e = (result, m')) : e.eval m.env = (result, m'.env) := by
  cases h
  rfl

theorem Machine.writeValue_ne_fault (m m' : Machine) (value : Value) (fault : Fault) :
    m.writeValue value ≠ .stopped (.fault fault) m' := by
  obtain ⟨env, output⟩ := m
  intro h
  rw [writeValue] at h
  split at h <;> cases h

theorem Run.leave_eq_fault {r : Run} {m' : Machine} {fault : Fault}
    (h : r.leave = .stopped (.fault fault) m') : ∃ m, r = .stopped (.fault fault) m := by
  cases r
  case done =>
    rw [leave] at h
    split at h <;> cases h
  case stopped m =>
    rw [leave] at h
    split at h <;> cases h
    exact ⟨_, rfl⟩
  case unfinished => cases h

namespace Stmt

def Blames (stmt : Stmt) (m : Machine) (fault : Fault) : Prop :=
  ∃ p part env, stmt.Reaches m p (.expression part) env ∧ part.Raises env fault

variable {fault : Fault} {fuel : Nat} {m m' : Machine}

theorem Blames.of_expression {stmt : Stmt} {e : Expr} {i : Nat} (he : m.eval e = (.error fault, m'))
    (hr : ∀ {p part env}, e.Reaches m.env p part env →
      stmt.Reaches m (i :: p) (.expression part) env) : stmt.Blames m fault := by
  obtain ⟨p, part, env, h, hp⟩ := Expr.blames_of_error <| Machine.eval_env he
  exact ⟨i :: p, part, env, hr h, hp⟩

theorem Blames.of_part {stmt part : Stmt} {m₁ : Machine} {i : Nat} (h : part.Blames m₁ fault)
    (hr : ∀ {p node env}, part.Reaches m₁ p node env → stmt.Reaches m (i :: p) node env) :
    stmt.Blames m fault := by
  obtain ⟨p, e, env, h, he⟩ := h
  exact ⟨i :: p, e, env, hr h, he⟩

theorem blames_of_repeatWhile {condition : Expr} {body : Stmt} {rounds : Nat}
    (hb : ∀ {m m'}, body.exec fuel m = .stopped (.fault fault) m' → body.Blames m fault)
    (h : repeatWhile condition (body.exec fuel) rounds m = .stopped (.fault fault) m') :
    (loop condition body).Blames m fault := by
  induction rounds generalizing m
  case zero => cases h
  case succ rounds hi =>
    rw [repeatWhile] at h
    rcases hc : m.eval condition with ⟨_ | value, m₁⟩
    all_goals simp only [hc] at h
    case error =>
      cases h
      exact .of_expression hc .loopCondition
    case ok =>
      split at h
      case isFalse => cases h
      case isTrue ht =>
        cases hr : body.exec fuel m₁
        all_goals simp only [hr] at h
        case done m₂ =>
          -- The round has ended, so the fault is in a later one, from the machine that it left.
          obtain ⟨p, e, env, h, he⟩ := hi h
          exact ⟨p, e, env, .nextRound hc ht hr h, he⟩
        case stopped =>
          cases h
          exact (hb hr).of_part <| .loop hc ht
        case unfinished => cases h

mutual

theorem blames_of_exec {fuel : Nat} {stmt : Stmt} {m m' : Machine}
    (h : stmt.exec fuel m = .stopped (.fault fault) m') : stmt.Blames m fault := by
  cases stmt
  case print value =>
    rw [exec] at h
    rcases he : m.eval value with ⟨_ | v, m₁⟩
    all_goals simp only [he] at h
    case error =>
      cases h
      exact .of_expression he .print
    case ok => exact absurd h <| m₁.writeValue_ne_fault m' v fault
  case expression value =>
    rw [exec] at h
    rcases he : m.eval value with ⟨_ | v, m₁⟩
    all_goals simp only [he] at h
    case error =>
      cases h
      exact .of_expression he .expression
    case ok => cases h
  case declare name initial =>
    cases initial
    case none => cases h
    case some value =>
      rw [exec] at h
      rcases he : m.eval value with ⟨_ | v, m₁⟩
      all_goals simp only [he] at h
      case error =>
        cases h
        exact .of_expression he .initial
      case ok => cases h
  case block body =>
    rw [exec] at h
    obtain ⟨m₁, hr⟩ := Run.leave_eq_fault h
    obtain ⟨i, stmt, m₂, hi, hr, hs⟩ := blames_of_execAll hr
    exact hs.of_part <| .block hi hr
  case ifThen condition branch =>
    rw [exec] at h
    rcases hc : m.eval condition with ⟨_ | v, m₁⟩
    all_goals simp only [hc] at h
    case error =>
      cases h
      exact .of_expression hc .ifThenCondition
    case ok =>
      split at h
      case isTrue ht => exact (blames_of_exec h).of_part <| .ifThen hc ht
      case isFalse => cases h
  case ifElse condition branch otherwise =>
    rw [exec] at h
    rcases hc : m.eval condition with ⟨_ | v, m₁⟩
    all_goals simp only [hc] at h
    case error =>
      cases h
      exact .of_expression hc .ifElseCondition
    case ok =>
      split at h
      case isTrue ht => exact (blames_of_exec h).of_part <| .ifElse hc ht
      case isFalse ht =>
        exact (blames_of_exec h).of_part <| .otherwise hc <| eq_false_of_ne_true ht
  case loop condition body => exact blames_of_repeatWhile blames_of_exec h

theorem blames_of_execAll {fuel : Nat} {stmts : List Stmt} {m m' : Machine}
    (h : execAll fuel stmts m = .stopped (.fault fault) m') :
    ∃ i stmt m₁, stmts[i]? = some stmt ∧ execAll fuel (stmts.take i) m = .done m₁ ∧
      stmt.Blames m₁ fault := by
  cases stmts
  case nil => cases h
  case cons stmt stmts =>
    rw [execAll] at h
    cases hr : stmt.exec fuel m
    all_goals simp only [hr] at h
    case done m₁ =>
      obtain ⟨i, stmt', m₂, hi, hr', hs⟩ := blames_of_execAll h
      refine ⟨i + 1, stmt', m₂, hi, ?_, hs⟩
      rw [List.take_succ_cons, execAll, hr]
      exact hr'
    case stopped =>
      cases h
      exact ⟨0, stmt, m, rfl, rfl, blames_of_exec hr⟩
    case unfinished => cases h

end

theorem blames_of_execTop {stmt : Stmt} (h : stmt.execTop fuel m = .stopped (.fault fault) m') :
    stmt.Blames m fault := by
  cases stmt
  case expression value =>
    have hp : (print value).exec fuel m = .stopped (.fault fault) m' := h
    obtain ⟨_, part, env, hr, hp⟩ := blames_of_exec hp
    cases hr
    case print hr => exact ⟨_, part, env, .expression hr, hp⟩
  all_goals exact blames_of_exec <| show exec fuel _ m = _ from h

theorem blames_of_interpret {stmts : List Stmt}
    (h : interpret fuel stmts m = .stopped (.fault fault) m') :
    ∃ i stmt m₁, stmts[i]? = some stmt ∧ interpret fuel (stmts.take i) m = .done m₁ ∧
      stmt.Blames m₁ fault := by
  induction stmts generalizing m
  case nil => cases h
  case cons stmt stmts hi =>
    rw [interpret] at h
    cases hr : stmt.execTop fuel m
    all_goals simp only [hr] at h
    case done m₁ =>
      obtain ⟨i, stmt', m₂, hs, hr', hb⟩ := hi h
      refine ⟨i + 1, stmt', m₂, hs, ?_, hb⟩
      rw [List.take_succ_cons, interpret, hr]
      exact hr'
    case stopped =>
      cases h
      exact ⟨0, stmt, m, rfl, rfl, blames_of_execTop hr⟩
    case unfinished => cases h

theorem exists_runReaches_of_fault {program : List Stmt}
    (h : interpret fuel program m = .stopped (.fault fault) m') :
    ∃ place part env, RunReaches program m place (.expression part) env ∧
      part.Raises env fault := by
  obtain ⟨i, stmt, m₁, hs, hr, p, part, env, hb, hp⟩ := blames_of_interpret h
  exact ⟨i :: p, part, env, .mk hs hr hb, hp⟩

end Stmt

namespace Lexeme

theorem undefined_injective {name name' : Lexeme} (h : name.undefined = name'.undefined) :
    name = name' := by
  cases h
  rfl

variable (operator name : Lexeme)

theorem applyUnary_ne_undefined (v : Value) : operator.applyUnary v ≠ .error name.undefined := by
  unfold applyUnary
  split
  case h_1 => split <;> nofun
  all_goals nofun

theorem applyBinary_ne_undefined (v v' : Value) :
    operator.applyBinary v v' ≠ .error name.undefined := by
  unfold applyBinary add onNumbers
  split
  all_goals first | (split <;> nofun) | nofun

theorem decides_ne_undefined (v : Value) : operator.decides v ≠ .error name.undefined := by
  unfold decides
  split <;> nofun

end Lexeme

theorem Expr.Raises.not_defines {e : Expr} {env : Environment} {names : Names} {name : Lexeme}
    (h : e.Raises env name.undefined) (hn : env.Has names) :
    ¬names.Defines name.content ∧ (e = .variable name ∨ ∃ value, e = .assign name value) := by
  generalize hf : name.undefined = fault at h
  cases h
  case «variable» hg =>
    cases Lexeme.undefined_injective hf
    rw [hn.get?_eq] at hg
    rw [← hn.isSome_getAt?, hg]
    exact ⟨nofun, .inl rfl⟩
  case assign ha hv =>
    cases Lexeme.undefined_injective hf
    have hn := hn.of_eval hv
    rw [hn.assign?_eq] at ha
    rw [← hn.isSome_getAt?, ← Environment.isSome_assignAt?, ha]
    exact ⟨nofun, .inr ⟨_, rfl⟩⟩
  case unary h => exact absurd (hf ▸ h) <| Lexeme.applyUnary_ne_undefined _ _ _
  case binary h => exact absurd (hf ▸ h) <| Lexeme.applyBinary_ne_undefined _ _ _ _
  case logical h => exact absurd (hf ▸ h) <| Lexeme.decides_ne_undefined _ _ _

-- A run stops at an undefined name only where none of the declarations before the place gives the
-- name, nor any global from before the run. So it can be told without running the program.
theorem Stmt.not_defines_of_interpret {lexemes : List Lexeme} {parsed : Parsed}
    (hp : parse? lexemes = some parsed) {m m' : Machine} (hm : m.env.locals = []) {fuel : Nat}
    {name : Lexeme} (h : interpret fuel parsed.statements m = .stopped (.fault name.undefined) m') :
    ∃ place part env, RunReaches parsed.statements m place (.expression part) env ∧
      ¬(namesAt m.env.globals.names parsed.statements place).Defines name.content ∧
        (part = .variable name ∨ ∃ value, part = .assign name value) := by
  have ⟨place, part, env, hr, h⟩ := exists_runReaches_of_fault h
  exact ⟨place, part, env, hr, h.not_defines <| hr.has (parse?_wellFormed hp) hm⟩

end Lox
