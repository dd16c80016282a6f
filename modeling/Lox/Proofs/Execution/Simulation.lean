import Lox.Proofs.Execution.Correspondence
import Lox.Proofs.Execution.Growth

namespace Lox

open List (Forall₂)

inductive Stmt.Like (exprs : Expr → Expr → Prop) (names : Lexeme → Lexeme → Prop) :
    Stmt → Stmt → Prop
  | print (h : exprs e e') : Like exprs names (.print e) (.print e')
  | expression (h : exprs e e') : Like exprs names (.expression e) (.expression e')
  | declare (h : names n n') : Like exprs names (.declare n none) (.declare n' none)
  | define (h : names n n') (hi : exprs e e') :
    Like exprs names (.declare n (some e)) (.declare n' (some e'))
  | block (h : Forall₂ (Like exprs names) body body') : Like exprs names (.block body) (.block body')
  | ifThen (hc : exprs c c') (h : Like exprs names s s') :
    Like exprs names (.ifThen c s) (.ifThen c' s')
  | ifElse (hc : exprs c c') (h₁ : Like exprs names s₁ s₁') (h₂ : Like exprs names s₂ s₂') :
    Like exprs names (.ifElse c s₁ s₂) (.ifElse c' s₁' s₂')
  | loop (hc : exprs c c') (h : Like exprs names s s') : Like exprs names (.loop c s) (.loop c' s')

namespace Stmt

mutual

def mapParts (expr : Expr → Expr) (name : Lexeme → Lexeme) : Stmt → Stmt
  | print value                       => .print (expr value)
  | expression value                  => .expression (expr value)
  | declare n none                    => .declare (name n) none
  | declare n (some initial)          => .declare (name n) (some (expr initial))
  | block body                        => .block (mapPartsAll expr name body)
  | ifThen condition branch           => .ifThen (expr condition) (branch.mapParts expr name)
  | ifElse condition branch otherwise =>
    .ifElse (expr condition) (branch.mapParts expr name) (otherwise.mapParts expr name)
  | loop condition body               => .loop (expr condition) (body.mapParts expr name)

def mapPartsAll (expr : Expr → Expr) (name : Lexeme → Lexeme) : List Stmt → List Stmt
  | []            => []
  | stmt :: stmts => stmt.mapParts expr name :: mapPartsAll expr name stmts

end

variable (expr : Expr → Expr) (name : Lexeme → Lexeme)

theorem mapPartsAll_eq_map (stmts : List Stmt) :
    mapPartsAll expr name stmts = stmts.map (mapParts expr name) := by
  induction stmts
  case nil => rfl
  case cons stmt stmts hi => simp only [mapPartsAll, hi, List.map_cons]

mutual

theorem like_mapParts (stmt : Stmt) :
    stmt.Like (fun e e' => e' = expr e) (fun n n' => n' = name n) (stmt.mapParts expr name) := by
  cases stmt
  case declare n initial =>
    cases initial <;> simp only [mapParts]
    case none => exact .declare rfl
    case some => exact .define rfl rfl
  case block body =>
    simp only [mapParts]
    exact .block <| forall₂_like_mapPartsAll body
  case print | expression =>
    simp only [mapParts]
    constructor
    rfl
  case ifThen condition branch =>
    simp only [mapParts]
    exact .ifThen rfl (like_mapParts branch)
  case ifElse condition branch otherwise =>
    simp only [mapParts]
    exact .ifElse rfl (like_mapParts branch) (like_mapParts otherwise)
  case loop condition body =>
    simp only [mapParts]
    exact .loop rfl (like_mapParts body)

theorem forall₂_like_mapPartsAll (stmts : List Stmt) :
    Forall₂ (Like (fun e e' => e' = expr e) (fun n n' => n' = name n)) stmts
      (mapPartsAll expr name stmts) := by
  cases stmts
  case nil => exact .nil
  case cons stmt stmts => exact .cons (like_mapParts stmt) (forall₂_like_mapPartsAll stmts)

end

theorem forall₂_like_map_mapParts (stmts : List Stmt) :
    Forall₂ (Like (fun e e' => e' = expr e) (fun n n' => n' = name n)) stmts
      (stmts.map (mapParts expr name)) :=
  mapPartsAll_eq_map expr name stmts ▸ forall₂_like_mapPartsAll expr name stmts

end Stmt

inductive Evaluations (machines : Machine → Machine → Prop) (runs : Run → Run → Prop) :
    Except Fault Value × Machine → Except Fault Value × Machine → Prop
  | ok (h : machines m m') : Evaluations machines runs (.ok value, m) (.ok value, m')
  | error (h : runs (.stopped (.fault f) m) (.stopped (.fault f') m')) :
    Evaluations machines runs (.error f, m) (.error f', m')

theorem Correspondence.evaluations (C : Correspondence) {machines : Machine → Machine → Prop}
    {runs : Run → Run → Prop} {e e' : Expr} {m m' : Machine}
    (he : e.Like C.names C.operators e') (h : C.envs m.env m'.env)
    (hm : ∀ {env env'}, C.envs env env' → machines ⟨env, m.output⟩ ⟨env', m'.output⟩)
    (hr : ∀ {f m₁ m₁'}, machines m₁ m₁' →
      runs (.stopped (.fault f) m₁) (.stopped (.fault (C.fault f)) m₁')) :
    Evaluations machines runs (m.eval e) (m'.eval e') := by
  have hv := C.eval he h
  simp only [Machine.eval]
  generalize e.eval m.env = r, e'.eval m'.env = r' at hv
  cases hv
  case ok h => exact .ok (hm h)
  case error h => exact .error (hr <| hm h)

-- A relation between machines that the steps of a run keep, and one between the runs that come of
-- it. Each law is about one kind of step, and together they carry any two programs that are alike.
-- A block is left by runs that have grown from its beginning, so there is a scope to leave.
structure Simulation where
  exprs : Expr → Expr → Prop
  names : Lexeme → Lexeme → Prop
  machines : Machine → Machine → Prop
  runs : Run → Run → Prop
  done {m m' : Machine} (h : machines m m') : runs (.done m) (.done m')
  unfinished : runs .unfinished .unfinished
  andThen {r r' : Run} {next next' : Machine → Run} (h : runs r r')
    (hg : ∀ m : Machine, m.GrowsTo (next m))
    (hn : ∀ {m m'}, machines m m' → runs (next m) (next' m')) :
    runs (r.andThen next) (r'.andThen next')
  eval {e e' : Expr} {m m' : Machine} (he : exprs e e') (h : machines m m') :
    Evaluations machines runs (m.eval e) (m'.eval e')
  writeValue {m m' : Machine} (h : machines m m') (value : Value) :
    runs (m.writeValue value) (m'.writeValue value)
  define {n n' : Lexeme} {m m' : Machine} (hn : names n n') (h : machines m m') (value : Value) :
    machines (m.define n.content value) (m'.define n'.content value)
  enter {m m' : Machine} (h : machines m m') : machines m.enter m'.enter
  leave {m m' : Machine} {r r' : Run} (h : runs r r') (hg : m.enter.GrowsTo r)
    (hg' : m'.enter.GrowsTo r') : runs r.leave r'.leave

namespace Simulation

variable (S : Simulation)

theorem evaluate {e e' : Expr} {m m' : Machine} {next next' : Value → Machine → Run}
    (he : S.exprs e e') (h : S.machines m m')
    (hn : ∀ value {m m'}, S.machines m m' → S.runs (next value m) (next' value m')) :
    S.runs (m.evaluate e next) (m'.evaluate e' next') := by
  have hr := S.eval he h
  rw [Machine.evaluate, Machine.evaluate]
  generalize m.eval e = r, m'.eval e' = r' at hr
  cases hr
  case ok h => exact hn _ h
  case error h => exact h

theorem repeatWhile {c c' : Expr} {body body' : Machine → Run} (hc : S.exprs c c')
    (hg : ∀ m : Machine, m.GrowsTo (body m))
    (hb : ∀ {m m'}, S.machines m m' → S.runs (body m) (body' m')) (fuel : Nat) {m m' : Machine}
    (h : S.machines m m') : S.runs (repeatWhile c body fuel m) (repeatWhile c' body' fuel m') := by
  induction fuel generalizing m m'
  case zero => exact S.unfinished
  case succ fuel hi =>
    rw [repeatWhile_succ, repeatWhile_succ]
    refine S.evaluate hc h fun value m m' h => ?_
    split
    case isTrue =>
      exact S.andThen (hb h) (fun m => m.growsTo_repeatWhile hg fuel) hi
    case isFalse => exact S.done h

mutual

theorem exec (fuel : Nat) {stmt stmt' : Stmt} {m m' : Machine}
    (hs : stmt.Like S.exprs S.names stmt') (h : S.machines m m') :
    S.runs (stmt.exec fuel m) (stmt'.exec fuel m') := by
  cases hs
  case print he =>
    simp only [Stmt.exec_print]
    exact S.evaluate he h fun value m m' h => S.writeValue h value
  case expression he =>
    simp only [Stmt.exec_expression]
    exact S.evaluate he h fun _ m m' h => S.done h
  case declare hn =>
    simp only [Stmt.exec_declare_none]
    exact S.done <| S.define hn h .nil
  case define hn he =>
    simp only [Stmt.exec_declare_some]
    exact S.evaluate he h fun value m m' h => S.done <| S.define hn h value
  case block body body' hb =>
    simp only [Stmt.exec_block]
    exact S.leave (execAll fuel hb <| S.enter h) (Stmt.growsTo_execAll fuel body m.enter)
      (Stmt.growsTo_execAll fuel body' m'.enter)
  case ifThen hc hs =>
    simp only [Stmt.exec_ifThen]
    refine S.evaluate hc h fun value m m' h => ?_
    split
    case isTrue => exact exec fuel hs h
    case isFalse => exact S.done h
  case ifElse hc hs₁ hs₂ =>
    simp only [Stmt.exec_ifElse]
    refine S.evaluate hc h fun value m m' h => ?_
    split
    case isTrue => exact exec fuel hs₁ h
    case isFalse => exact exec fuel hs₂ h
  case loop hc hs =>
    simp only [Stmt.exec_loop]
    exact S.repeatWhile hc (Stmt.growsTo_exec fuel _) (exec fuel hs) fuel h

theorem execAll (fuel : Nat) {stmts stmts' : List Stmt} {m m' : Machine}
    (hs : Forall₂ (Stmt.Like S.exprs S.names) stmts stmts') (h : S.machines m m') :
    S.runs (Stmt.execAll fuel stmts m) (Stmt.execAll fuel stmts' m') := by
  cases hs
  case nil =>
    simp only [Stmt.execAll_nil]
    exact S.done h
  case cons hs hl =>
    simp only [Stmt.execAll_cons]
    exact S.andThen (exec fuel hs h) (Stmt.growsTo_execAll fuel _) (execAll fuel hl)

end

theorem interpret (fuel : Nat) {program program' : List Stmt} {m m' : Machine}
    (hp : Forall₂ (Stmt.Like S.exprs S.names) program program') (h : S.machines m m') :
    S.runs (Stmt.interpret fuel program m) (Stmt.interpret fuel program' m') := by
  have ht : Forall₂ (Stmt.Like S.exprs S.names) (program.map Stmt.atTop)
      (program'.map Stmt.atTop) := by
    refine List.forall₂_map_left_iff.mpr <| List.forall₂_map_right_iff.mpr <| hp.imp ?_
    intro stmt stmt' hs
    cases hs
    case expression he => exact .print he
    all_goals constructor <;> assumption
  rw [Stmt.interpret_eq_execAll, Stmt.interpret_eq_execAll]
  exact S.execAll fuel ht h

end Simulation

theorem Stmt.like_self {names : Lexeme → Lexeme → Prop} (hn : ∀ n, names n n) :
    (stmt : Stmt) → stmt.Like Eq names stmt
  | .print _ => .print rfl
  | .expression _ => .expression rfl
  | .declare n none => .declare (hn n)
  | .declare n (some _) => .define (hn n) rfl
  | .block body => .block <| List.forall₂_same.mpr fun stmt _ => like_self hn stmt
  | .ifThen _ branch => .ifThen rfl (like_self hn branch)
  | .ifElse _ branch otherwise => .ifElse rfl (like_self hn branch) (like_self hn otherwise)
  | .loop _ body => .loop rfl (like_self hn body)

end Lox
