import Lox.Proofs.Scoping.Preservation

namespace Lox

abbrev Place := List Nat

inductive Node
  | statement (stmt : Stmt)
  | expression (e : Expr)

namespace Expr

inductive Reaches : Expr → Environment → Place → Expr → Environment → Prop
  | here : Reaches e env [] e env
  | grouping (h : Reaches e env p part env') : Reaches (.grouping e) env (0 :: p) part env'
  | unary (h : Reaches operand env p part env') :
    Reaches (.unary operator operand) env (0 :: p) part env'
  | binaryLeft (h : Reaches left env p part env') :
    Reaches (.binary left operator right) env (0 :: p) part env'
  | binaryRight (hl : eval left env = (.ok value, env₁)) (h : Reaches right env₁ p part env') :
    Reaches (.binary left operator right) env (1 :: p) part env'
  | logicalLeft (h : Reaches left env p part env') :
    Reaches (.logical left operator right) env (0 :: p) part env'
  | logicalRight (hl : eval left env = (.ok value, env₁)) (hd : operator.decides value = .ok false)
    (h : Reaches right env₁ p part env') :
    Reaches (.logical left operator right) env (1 :: p) part env'
  | assign (h : Reaches value env p part env') : Reaches (.assign name value) env (0 :: p) part env'

theorem Reaches.has {names : Names} (hr : Reaches e env p part env') (h : env.Has names) :
    env'.Has names := by
  induction hr
  case here => exact h
  case binaryRight hl _ hi | logicalRight hl _ _ hi => exact hi <| h.of_eval hl
  case grouping hi | unary hi | binaryLeft hi | logicalLeft hi | assign hi => exact hi h

end Expr

namespace Stmt

-- What is executed or evaluated with a statement, and the environment in which it is. The
-- statements before it in its block, and the rounds before it of its loop, have come to an end.
inductive Reaches : Stmt → Machine → Place → Node → Environment → Prop
  | here : Reaches stmt m [] (.statement stmt) m.env
  | print (h : Expr.Reaches value m.env p part env) :
    Reaches (.print value) m (0 :: p) (.expression part) env
  | expression (h : Expr.Reaches value m.env p part env) :
    Reaches (.expression value) m (0 :: p) (.expression part) env
  | initial (h : Expr.Reaches value m.env p part env) :
    Reaches (.declare name (some value)) m (0 :: p) (.expression part) env
  | block (hi : body[i]? = some stmt) (hr : execAll fuel (body.take i) m.enter = .done m₁)
    (h : Reaches stmt m₁ p node env) : Reaches (.block body) m (i :: p) node env
  | ifThenCondition (h : Expr.Reaches condition m.env p part env) :
    Reaches (.ifThen condition branch) m (0 :: p) (.expression part) env
  | ifThen (hc : m.eval condition = (.ok value, m₁)) (ht : value.truthy = true)
    (h : Reaches branch m₁ p node env) : Reaches (.ifThen condition branch) m (1 :: p) node env
  | ifElseCondition (h : Expr.Reaches condition m.env p part env) :
    Reaches (.ifElse condition branch otherwise) m (0 :: p) (.expression part) env
  | ifElse (hc : m.eval condition = (.ok value, m₁)) (ht : value.truthy = true)
    (h : Reaches branch m₁ p node env) :
    Reaches (.ifElse condition branch otherwise) m (1 :: p) node env
  | otherwise (hc : m.eval condition = (.ok value, m₁)) (ht : value.truthy = false)
    (h : Reaches otherwise m₁ p node env) :
    Reaches (.ifElse condition branch otherwise) m (2 :: p) node env
  | loopCondition (h : Expr.Reaches condition m.env p part env) :
    Reaches (.loop condition body) m (0 :: p) (.expression part) env
  | loop (hc : m.eval condition = (.ok value, m₁)) (ht : value.truthy = true)
    (h : Reaches body m₁ p node env) : Reaches (.loop condition body) m (1 :: p) node env
  | nextRound (hc : m.eval condition = (.ok value, m₁)) (ht : value.truthy = true)
    (hb : exec fuel body m₁ = .done m₂) (h : Reaches (.loop condition body) m₂ p node env) :
    Reaches (.loop condition body) m p node env

inductive RunReaches (program : List Stmt) (m : Machine) : Place → Node → Environment → Prop
  | mk (hi : program[i]? = some stmt) (hr : interpret fuel (program.take i) m = .done m₁)
    (h : Reaches stmt m₁ p node env) : RunReaches program m (i :: p) node env

mutual

def localsAt : Stmt → Place → List (List String)
  | .block body, i :: p           => localsIn body i p ++ [(body.take i).flatMap declared]
  | .ifThen _ branch, 1 :: p      => branch.localsAt p
  | .ifElse _ branch _, 1 :: p    => branch.localsAt p
  | .ifElse _ _ otherwise, 2 :: p => otherwise.localsAt p
  | .loop _ body, 1 :: p          => body.localsAt p
  | _, _                          => []

def localsIn : List Stmt → Nat → Place → List (List String)
  | [], _, _             => []
  | stmt :: _, 0, p      => stmt.localsAt p
  | _ :: stmts, i + 1, p => localsIn stmts i p

end

-- The names of all scopes at a place in a program, where some are known before it is run. They are
-- those of the declarations that stand before the place, directly in one of the blocks around it.
def namesAt (known : List String) (program : List Stmt) : Place → Names
  | []     => { globals := known }
  | i :: p =>
    { globals := known ++ (program.take i).flatMap declared
      locals  := localsIn program i p }

theorem localsIn_eq {stmts : List Stmt} {i : Nat} {stmt : Stmt} (h : stmts[i]? = some stmt)
    (p : Place) : localsIn stmts i p = stmt.localsAt p := by
  induction stmts generalizing i
  case nil => contradiction
  case cons hi =>
    cases i
    case zero =>
      cases h
      rfl
    case succ => exact hi h

theorem Reaches.has {stmt : Stmt} {m : Machine} {p : Place} {node : Node} {env : Environment}
    {names : Names} (hr : stmt.Reaches m p node env) (hw : stmt.WellFormed) (h : m.env.Has names) :
    env.Has (names.within (stmt.localsAt p)) := by
  induction hr generalizing names
  case here stmt _ => cases stmt <;> exact h
  case print hp | expression hp | initial hp | ifThenCondition hp | ifElseCondition hp
      | loopCondition hp =>
    exact hp.has h
  case block hs hr _ hi =>
    cases hw
    case block hb =>
      have h₁ := has_execAll (fun stmt hm => hb stmt <| List.mem_of_mem_take hm) h.enter hr
      rw [Names.define_enter] at h₁
      have h₂ := hi (hb _ <| List.mem_of_getElem? hs) h₁
      rwa [Names.within_within, ← localsIn_eq hs] at h₂
  case ifThen hc _ _ hi =>
    cases hw
    case ifThen _ hb _ => exact hi hb <| Machine.has_eval h hc
  case ifElse hc _ _ hi =>
    cases hw
    case ifElse _ hb _ _ _ _ => exact hi hb <| Machine.has_eval h hc
  case otherwise hc _ _ hi =>
    cases hw
    case ifElse _ _ _ _ hb _ => exact hi hb <| Machine.has_eval h hc
  case loop hc _ _ hi =>
    cases hw
    case loop _ hb _ => exact hi hb <| Machine.has_eval h hc
  case nextRound hc _ hb _ hi =>
    refine hi hw ?_
    cases hw
    case loop _ hw hd => exact (has_exec hw (Machine.has_eval h hc) hb).of_declared hd

theorem RunReaches.has {program : List Stmt} {m : Machine} {p : Place} {node : Node}
    {env : Environment} (hr : RunReaches program m p node env)
    (hw : ∀ stmt ∈ program, stmt.WellFormed) (hm : m.env.locals = []) :
    env.Has (namesAt m.env.globals.names program p) := by
  cases hr
  case mk hs hr h =>
    have h₀ : m.env.Has { globals := m.env.globals.names } :=
      ⟨fun _ => Iff.rfl, by rw [hm]; exact .nil⟩
    have h₁ := has_interpret (fun stmt hm => hw stmt <| List.mem_of_mem_take hm) h₀ hr
    have h₂ := h.has (hw _ <| List.mem_of_getElem? hs) h₁
    rwa [← localsIn_eq hs, Names.define, Names.within, List.append_nil] at h₂

end Stmt
end Lox
