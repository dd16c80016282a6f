import Lox.Semantics.Evaluation

namespace Lox

inductive Expr.Like (names operators : Lexeme → Lexeme → Prop) : Expr → Expr → Prop
  | literal : Like names operators (.literal value) (.literal value)
  | variable (hn : names n n') : Like names operators (.variable n) (.variable n')
  | grouping (h : Like names operators e e') : Like names operators (.grouping e) (.grouping e')
  | unary (ho : operators o o') (h : Like names operators e e') :
    Like names operators (.unary o e) (.unary o' e')
  | binary (hl : Like names operators l l') (ho : operators o o') (hr : Like names operators r r') :
    Like names operators (.binary l o r) (.binary l' o' r')
  | logical (hl : Like names operators l l') (ho : operators o o') (hr : Like names operators r r') :
    Like names operators (.logical l o r) (.logical l' o' r')
  | assign (hn : names n n') (h : Like names operators e e') :
    Like names operators (.assign n e) (.assign n' e')

namespace Expr

def mapParts (name operator : Lexeme → Lexeme) : Expr → Expr
  | literal value        => .literal value
  | .variable n          => .variable (name n)
  | grouping inner       => .grouping (inner.mapParts name operator)
  | unary o operand      => .unary (operator o) (operand.mapParts name operator)
  | binary left o right  =>
    .binary (left.mapParts name operator) (operator o) (right.mapParts name operator)
  | logical left o right =>
    .logical (left.mapParts name operator) (operator o) (right.mapParts name operator)
  | assign n value       => .assign (name n) (value.mapParts name operator)

theorem like_mapParts (name operator : Lexeme → Lexeme) (e : Expr) :
    e.Like (fun n n' => n' = name n) (fun o o' => o' = operator o) (e.mapParts name operator) := by
  induction e
  case literal => exact .literal
  case «variable» => exact .variable rfl
  case grouping hi => exact .grouping hi
  case unary hi => exact .unary rfl hi
  case binary hl hr => exact .binary hl rfl hr
  case logical hl hr => exact .logical hl rfl hr
  case assign hi => exact .assign rfl hi

end Expr

-- A relation between environments that the evaluation of expressions keeps, where the expressions
-- differ in their lexemes at most. Each law is about one thing that an evaluation does with a name
-- or an operator, and the values are always the same.
structure Correspondence where
  names : Lexeme → Lexeme → Prop
  operators : Lexeme → Lexeme → Prop
  envs : Environment → Environment → Prop
  fault : Fault → Fault
  get? {n n' : Lexeme} {env env' : Environment} (hn : names n n') (h : envs env env') :
    env'.get? n'.content = env.get? n.content
  assign? {n n' : Lexeme} {env env' : Environment} (hn : names n n') (h : envs env env')
    (value : Value) :
    Option.Rel envs (env.assign? n.content value) (env'.assign? n'.content value)
  undefined {n n' : Lexeme} (hn : names n n') : n'.undefined = fault n.undefined
  applyUnary {o o' : Lexeme} (ho : operators o o') (v : Value) :
    o'.applyUnary v = (o.applyUnary v).mapError fault
  applyBinary {o o' : Lexeme} (ho : operators o o') (v v' : Value) :
    o'.applyBinary v v' = (o.applyBinary v v').mapError fault
  decides {o o' : Lexeme} (ho : operators o o') (v : Value) :
    o'.decides v = (o.decides v).mapError fault

namespace Correspondence

variable (C : Correspondence)

inductive Results : Except Fault Value × Environment → Except Fault Value × Environment → Prop
  | ok (h : C.envs env env') : Results (.ok value, env) (.ok value, env')
  | error (h : C.envs env env') : Results (.error f, env) (.error (C.fault f), env')

variable {C} {env env' : Environment}

theorem Results.of_mapError (h : C.envs env env') {result result' : Except Fault Value}
    (hr : result' = result.mapError C.fault) : C.Results (result, env) (result', env') := by
  subst hr
  cases result
  case error => exact .error h
  case ok => exact .ok h

theorem eval {e e' : Expr} (he : e.Like C.names C.operators e') (h : C.envs env env') :
    C.Results (e.eval env) (e'.eval env') := by
  induction he generalizing env env'
  case literal => exact .ok h
  case «variable» hn =>
    simp only [Expr.eval, C.get? hn h]
    split
    case h_1 => exact .ok h
    case h_2 => exact C.undefined hn ▸ .error h
  case grouping hi => exact hi h
  case unary o o' e e' ho _ hi =>
    have hv := hi h
    simp only [Expr.eval]
    generalize e.eval env = r, e'.eval env' = r' at hv
    cases hv
    case error h => exact .error h
    case ok h => exact .of_mapError h <| C.applyUnary ho _
  case binary l l' o o' r r' _ ho _ hl hr =>
    have hv := hl h
    simp only [Expr.eval]
    generalize l.eval env = r, l'.eval env' = r' at hv
    cases hv
    case error h => exact .error h
    case ok h =>
      have hv := hr h
      dsimp only
      generalize r.eval _ = r, r'.eval _ = r' at hv
      cases hv
      case error h => exact .error h
      case ok h => exact .of_mapError h <| C.applyBinary ho _ _
  case logical l l' o o' r r' _ ho _ hl hr =>
    have hv := hl h
    simp only [Expr.eval]
    generalize l.eval env = r, l'.eval env' = r' at hv
    cases hv
    case error h => exact .error h
    case ok v h =>
      simp only [C.decides ho]
      rcases o.decides v with _ | _ | _
      case error => exact .error h
      case ok.false => exact hr h
      case ok.true => exact .ok h
  case assign n n' e e' hn _ hi =>
    have hv := hi h
    simp only [Expr.eval]
    generalize e.eval env = r, e'.eval env' = r' at hv
    cases hv
    case error h => exact .error h
    case ok v h =>
      have hr := C.assign? hn h v
      dsimp only
      generalize Environment.assign? _ n.content v = a, Environment.assign? _ n'.content v = a'
        at hr
      cases hr
      case none => exact C.undefined hn ▸ .error h
      case some h => exact .ok h

end Correspondence
end Lox
