import Lox.Proofs.Scoping.Names
import Lox.Proofs.Syntax.Grammar

namespace Lox

variable {names : Names}

theorem Environment.Has.of_assign? {env env' : Environment} {name : String} {value : Value}
    (h : env.Has names) (ha : env.assign? name value = some env') : env'.Has names := by
  rw [h.assign?_eq, assignAt?] at ha
  split at ha
  case isTrue hn =>
    cases ha
    exact h.setScope fun _ hs => hs.set_mem <| (Scope.get?_isSome_iff ..).mp hn
  case isFalse => contradiction

theorem Expr.has_eval (e : Expr) {env : Environment} (h : env.Has names) :
    (e.eval env).2.Has names := by
  induction e generalizing env
  case literal => exact h
  case «variable» =>
    simp only [eval]
    split <;> exact h
  case grouping hi => exact hi h
  case unary operand hi =>
    have h₁ := hi h
    simp only [eval]
    generalize operand.eval env = r at h₁ ⊢
    rcases r with ⟨_ | _, _⟩ <;> exact h₁
  case binary left _ right hi₁ hi₂ =>
    have h₁ := hi₁ h
    simp only [eval]
    generalize left.eval env = r₁ at h₁ ⊢
    rcases r₁ with ⟨_ | _, env₁⟩
    case error => exact h₁
    case ok =>
      have h₂ := hi₂ h₁
      dsimp only at h₂ ⊢
      generalize right.eval env₁ = r₂ at h₂ ⊢
      rcases r₂ with ⟨_ | _, _⟩ <;> exact h₂
  case logical left operator right hi₁ hi₂ =>
    have h₁ := hi₁ h
    simp only [eval]
    generalize left.eval env = r at h₁ ⊢
    rcases r with ⟨_ | value, env₁⟩
    case error => exact h₁
    case ok =>
      dsimp only
      rcases operator.decides value with _ | _ | _
      case ok.false => exact hi₂ h₁
      all_goals exact h₁
  case assign name value hi =>
    have h₁ := hi h
    simp only [eval]
    generalize value.eval env = r at h₁ ⊢
    rcases r with ⟨_ | _, env₁⟩
    case error => exact h₁
    case ok =>
      dsimp only
      split
      case h_1 ha => exact h₁.of_assign? ha
      case h_2 => exact h₁

theorem Environment.Has.of_eval {e : Expr} {env env' : Environment} {result : Except Fault Value}
    (h : env.Has names) (he : e.eval env = (result, env')) : env'.Has names := by
  have h₁ := e.has_eval h
  rwa [he] at h₁

theorem Machine.has_eval {m m' : Machine} {e : Expr} {result : Except Fault Value}
    (h : m.env.Has names) (he : m.eval e = (result, m')) : m'.env.Has names := by
  cases he
  exact e.has_eval h

theorem Machine.has_writeValue {m m' : Machine} {value : Value} (h : m.env.Has names)
    (hw : m.writeValue value = .done m') : m'.env.Has names := by
  have ⟨env, output⟩ := m
  rw [writeValue] at hw
  split at hw
  case h_1 =>
    cases hw
    exact h
  case h_2 => contradiction

theorem has_repeatWhile {condition : Expr} {body : Machine → Run} {fuel : Nat} {m m' : Machine}
    (hb : ∀ {m m'}, m.env.Has names → body m = .done m' → m'.env.Has names)
    (h : m.env.Has names) (hr : repeatWhile condition body fuel m = .done m') :
    m'.env.Has names := by
  induction fuel generalizing m
  case zero => contradiction
  case succ fuel hi =>
    rw [repeatWhile] at hr
    rcases he : m.eval condition with ⟨_ | value, m₁⟩
    case error => simp only [he, reduceCtorEq] at hr
    case ok =>
      have h₁ := m.has_eval h he
      simp only [he] at hr
      split at hr
      case isTrue =>
        cases hb₁ : body m₁
        case done m₂ => exact hi (hb h₁ hb₁) (by simpa only [hb₁] using hr)
        all_goals simp only [hb₁, reduceCtorEq] at hr
      case isFalse =>
        cases hr
        exact h₁

theorem Run.leave_eq_done {r : Run} {m' : Machine} (h : r.leave = .done m') :
    ∃ m, r = .done m ∧ m.env.leave? = some m'.env := by
  cases r
  case done m =>
    rw [leave] at h
    split at h
    case h_1 hl =>
      cases h
      exact ⟨m, rfl, hl⟩
    case h_2 => contradiction
  case stopped =>
    rw [leave] at h
    split at h <;> contradiction
  case unfinished => contradiction

namespace Stmt

-- The names that the statement adds to the scope that it is executed in. Names are added by
-- declarations only, and those of a block are gone with its scope, so what a statement does to the
-- names of the environment can be told without running it.
def declared : Stmt → List String
  | declare name _ => [name.content]
  | _              => []

theorem declared_eq_nil {stmt : Stmt} (h : stmt.isDeclaration = false) : stmt.declared = [] := by
  cases stmt
  case declare => contradiction
  all_goals rfl

end Stmt

theorem Environment.Has.of_declared {env : Environment} {stmt : Stmt}
    (hd : stmt.isDeclaration = false) (h : env.Has (names.define stmt.declared)) :
    env.Has names := by
  rwa [stmt.declared_eq_nil hd, Names.define_nil] at h

namespace Stmt

mutual

theorem has_exec {names : Names} {fuel : Nat} {stmt : Stmt} (hw : stmt.WellFormed) {m m' : Machine}
    (h : m.env.Has names) (hr : stmt.exec fuel m = .done m') :
    m'.env.Has (names.define stmt.declared) := by
  cases hw
  case declare name initial _ _ =>
    cases initial
    case none =>
      cases hr
      exact h.define
    case some e _ =>
      rw [exec] at hr
      rcases he : m.eval e with ⟨_ | value, m₁⟩
      all_goals simp only [he, reduceCtorEq, Run.done.injEq] at hr
      subst hr
      exact (m.has_eval h he).define
  -- No other statement declares a name where it stands, so the names have to be as before.
  all_goals rw [declared_eq_nil rfl, Names.define_nil]
  case block body hw =>
    rw [exec] at hr
    have ⟨m₁, hr, hl⟩ := Run.leave_eq_done hr
    exact (has_execAll hw h.enter hr).of_leave? hl
  case loop condition body hw hd =>
    rw [exec] at hr
    exact has_repeatWhile (fun h hr => (has_exec hw h hr).of_declared hd) h hr
  case print value _ =>
    rw [exec] at hr
    rcases he : m.eval value with ⟨_ | v, m₁⟩
    all_goals simp only [he, reduceCtorEq] at hr
    exact m₁.has_writeValue (m.has_eval h he) hr
  case expression value _ =>
    rw [exec] at hr
    rcases he : m.eval value with ⟨_ | v, m₁⟩
    all_goals simp only [he, reduceCtorEq, Run.done.injEq] at hr
    subst hr
    exact m.has_eval h he
  case ifThen condition branch _ hb hd =>
    rw [exec] at hr
    rcases he : m.eval condition with ⟨_ | v, m₁⟩
    all_goals simp only [he, reduceCtorEq] at hr
    have h₁ := m.has_eval h he
    split at hr
    case isTrue => exact (has_exec hb h₁ hr).of_declared hd
    case isFalse =>
      cases hr
      exact h₁
  case ifElse condition branch otherwise _ hb hd _ hb' hd' =>
    rw [exec] at hr
    rcases he : m.eval condition with ⟨_ | v, m₁⟩
    all_goals simp only [he, reduceCtorEq] at hr
    have h₁ := m.has_eval h he
    split at hr
    case isTrue => exact (has_exec hb h₁ hr).of_declared hd
    case isFalse => exact (has_exec hb' h₁ hr).of_declared hd'

theorem has_execAll {names : Names} {fuel : Nat} {stmts : List Stmt}
    (hw : ∀ stmt ∈ stmts, stmt.WellFormed) {m m' : Machine} (h : m.env.Has names)
    (hr : execAll fuel stmts m = .done m') :
    m'.env.Has (names.define (stmts.flatMap declared)) := by
  cases stmts
  case nil =>
    cases hr
    rw [List.flatMap_nil, Names.define_nil]
    exact h
  case cons stmt stmts =>
    have ⟨hs, hw⟩ := List.forall_mem_cons.mp hw
    rw [execAll] at hr
    cases he : stmt.exec fuel m
    case done m₁ =>
      rw [List.flatMap_cons, ← Names.define_define]
      exact has_execAll hw (has_exec hs h he) (by simpa only [he] using hr)
    all_goals simp only [he, reduceCtorEq] at hr

end

theorem has_execTop {fuel : Nat} {stmt : Stmt} (hw : stmt.WellFormed) {m m' : Machine}
    (h : m.env.Has names) (hr : stmt.execTop fuel m = .done m') :
    m'.env.Has (names.define stmt.declared) := by
  cases stmt
  case expression =>
    cases hw
    case expression hv =>
      rw [execTop] at hr
      exact has_exec (.print hv) h hr
  all_goals
    simp only [execTop] at hr
    exact has_exec hw h hr

theorem has_interpret {fuel : Nat} {stmts : List Stmt} (hw : ∀ stmt ∈ stmts, stmt.WellFormed)
    {m m' : Machine} (h : m.env.Has names) (hr : interpret fuel stmts m = .done m') :
    m'.env.Has (names.define (stmts.flatMap declared)) := by
  induction stmts generalizing names m
  case nil =>
    cases hr
    rw [List.flatMap_nil, Names.define_nil]
    exact h
  case cons stmt stmts hi =>
    have ⟨hs, hw⟩ := List.forall_mem_cons.mp hw
    rw [interpret] at hr
    cases he : stmt.execTop fuel m
    case done m₁ =>
      rw [List.flatMap_cons, ← Names.define_define]
      exact hi hw (has_execTop hs h he) (by simpa only [he] using hr)
    all_goals simp only [he, reduceCtorEq] at hr

end Stmt
end Lox
