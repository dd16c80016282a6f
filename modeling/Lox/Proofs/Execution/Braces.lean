import Lox.Proofs.Execution.Independence
import Lox.Proofs.Syntax.Parts
import Lox.Proofs.Syntax.Soundness.Program

namespace Lox

open List (Forall₂)

theorem Expr.namesIn_univ (e : Expr) : e.NamesIn Set.univ := by
  induction e <;> simp_all [NamesIn]

inductive Scope.Padded : Nat → List Scope → List Scope → Prop
  | here : Padded 0 ss (.empty :: ss)
  | inside (h : Padded n ss ss') : Padded (n + 1) (s :: ss) (s :: ss')

namespace Scope.Padded

variable {n : Nat} {ss ss' : List Scope}

theorem findSome?_eq (h : Padded n ss ss') (name : String) :
    ss'.findSome? (·.get? name) = ss.findSome? (·.get? name) := by
  induction h
  case here => rfl
  case inside hi => simp only [List.findSome?_cons, hi]

theorem setInnermost? (h : Padded n ss ss') (name : String) (value : Value) :
    Option.Rel (Padded n) (Environment.setInnermost? name value ss)
      (Environment.setInnermost? name value ss') := by
  induction h
  case here ss =>
    have he : Environment.setInnermost? name value (.empty :: ss) =
      (Environment.setInnermost? name value ss).map (Scope.empty :: ·) := rfl
    rw [he]
    cases Environment.setInnermost? name value ss
    case none => exact .none
    case some => exact .some .here
  case inside ss ss' s h hi =>
    simp only [Environment.setInnermost?]
    split
    case isTrue => exact .some <| .inside h
    case isFalse =>
      generalize Environment.setInnermost? name value ss = set,
        Environment.setInnermost? name value ss' = set' at hi
      cases hi
      case none => exact .none
      case some h => exact .some <| .inside h

end Scope.Padded

namespace Environment

-- The same environment but for an empty scope, which is under so many others. It has no names, so
-- it is never the scope in which a name is found.
structure Padded (n : Nat) (env env' : Environment) : Prop where
  globals : env'.globals = env.globals
  locals  : Scope.Padded n env.locals env'.locals

namespace Padded

variable {n : Nat} {env env' : Environment}

theorem enter_self (env : Environment) : Padded 0 env env.enter where
  globals := rfl
  locals  := .here

theorem eq_enter (h : Padded 0 env env') : env' = env.enter := by
  obtain ⟨globals, locals⟩ := env'
  have ⟨hg, hl⟩ := h
  cases hl
  cases hg
  rfl

theorem get?_eq (h : Padded n env env') (name : String) : env'.get? name = env.get? name := by
  simp only [get?, h.locals.findSome?_eq, h.globals]

theorem assign? (h : Padded n env env') (name : String) (value : Value) :
    Option.Rel (Padded n) (env.assign? name value) (env'.assign? name value) := by
  have hs := h.locals.setInnermost? name value
  simp only [Environment.assign?, h.globals]
  generalize setInnermost? name value env.locals = set,
    setInnermost? name value env'.locals = set' at hs
  cases hs
  case some hs => exact .some ⟨rfl, hs⟩
  case none =>
    dsimp only
    split
    case isTrue => exact .some ⟨rfl, h.locals⟩
    case isFalse => exact .none

theorem enter (h : Padded n env env') : Padded (n + 1) env.enter env'.enter where
  globals := h.globals
  locals  := .inside h.locals

theorem define (h : Padded (n + 1) env env') (name : String) (value : Value) :
    Padded (n + 1) (env.define name value) (env'.define name value) := by
  obtain ⟨globals, locals⟩ := env
  obtain ⟨globals', locals'⟩ := env'
  cases h.locals
  case inside hl => exact ⟨h.globals, .inside hl⟩

theorem leave? (h : Padded (n + 1) env env') :
    ∃ env₁ env₁', env.leave? = some env₁ ∧ env'.leave? = some env₁' ∧ Padded n env₁ env₁' := by
  obtain ⟨globals, locals⟩ := env
  obtain ⟨globals', locals'⟩ := env'
  cases h.locals
  case inside hl => exact ⟨_, _, rfl, rfl, h.globals, hl⟩

end Padded
end Environment

structure Machine.Padded (n : Nat) (m m' : Machine) : Prop where
  env    : m.env.Padded n m'.env
  output : m'.output = m.output

inductive Run.Padded (n : Nat) : Run → Run → Prop
  | done (h : Machine.Padded n m m') : Padded n (.done m) (.done m')
  | stopped (h : Machine.Padded n m m') : Padded n (.stopped why m) (.stopped why m')
  | unfinished : Padded n .unfinished .unfinished

variable {n : Nat} {m m' : Machine} {r r' : Run}

namespace Run.Padded

theorem andThen {next next' : Machine → Run} (h : r.Padded n r')
    (hn : ∀ {m m'}, Machine.Padded n m m' → (next m).Padded n (next' m')) :
    (r.andThen next).Padded n (r'.andThen next') := by
  cases h
  case done h => exact hn h
  case stopped h => exact .stopped h
  case unfinished => exact .unfinished

theorem leave (h : r.Padded (n + 1) r') : r.leave.Padded n r'.leave := by
  cases h
  case unfinished => exact .unfinished
  case done h | stopped h =>
    have ⟨env₁, env₁', hl, hl', he⟩ := h.env.leave?
    simp only [Run.leave, hl, hl']
    constructor
    exact ⟨he, h.output⟩

theorem leave_eq (h : r.Padded 0 r') : r'.leave = r := by
  cases h
  case unfinished => rfl
  case done h | stopped h =>
    simp only [Run.leave, h.env.eq_enter, Environment.leave?_enter, h.output]

end Run.Padded

namespace Machine.Padded

theorem enter (h : m.Padded n m') : m.enter.Padded (n + 1) m'.enter where
  env    := h.env.enter
  output := h.output

theorem evaluate (h : m.Padded n m') {e : Expr} {next next' : Value → Machine → Run}
    (hn : ∀ v {m m'}, Machine.Padded n m m' → (next v m).Padded n (next' v m')) :
    (m.evaluate e next).Padded n (m'.evaluate e next') := by
  have hr : Evaluations (Machine.Padded n) (Run.Padded n) (m.eval e) (m'.eval e) :=
    (Correspondence.ofNames Set.univ _ (fun h _ => Environment.Padded.get?_eq h _)
      (fun h _ => Environment.Padded.assign? h _)).evaluations e.namesIn_univ.like h.env
      (fun he => ⟨he, h.output⟩) .stopped
  simp only [Machine.evaluate]
  generalize m.eval e = r, m'.eval e = r' at hr
  cases hr
  case error hr => exact hr
  case ok h => exact hn _ h

theorem writeValue (h : m.Padded n m') (value : Value) :
    (m.writeValue value).Padded n (m'.writeValue value) := by
  simp only [Machine.writeValue, h.output]
  split
  case h_1 => exact .done ⟨h.env, rfl⟩
  case h_2 => exact .stopped ⟨h.env, rfl⟩

theorem repeatWhile {condition : Expr} {body : Machine → Run}
    (hb : ∀ {m m'}, Machine.Padded n m m' → (body m).Padded n (body m')) (fuel : Nat)
    (h : m.Padded n m') :
    (repeatWhile condition body fuel m).Padded n (repeatWhile condition body fuel m') := by
  induction fuel generalizing m m'
  case zero => exact .unfinished
  case succ fuel hi =>
    rw [repeatWhile_succ, repeatWhile_succ]
    refine h.evaluate fun v m m' h => ?_
    split
    case isTrue => exact (hb h).andThen hi
    case isFalse => exact .done h

end Machine.Padded

namespace Stmt

mutual

-- The core lemma for `interpret_eq_of_braced`: an empty scope makes no difference to what is done
-- inside of it. Only a declaration would tell it, and only where it is the innermost.
theorem exec_padded (fuel : Nat) {stmt : Stmt} (hw : stmt.WellFormed) {n : Nat}
    (hd : stmt.isDeclaration = true → 0 < n) {m m' : Machine} (h : m.Padded n m') :
    (stmt.exec fuel m).Padded n (stmt.exec fuel m') := by
  cases hw
  case print value _ =>
    simp only [exec_print]
    exact h.evaluate fun v m m' h => h.writeValue v
  case expression value _ =>
    simp only [exec_expression]
    exact h.evaluate fun _ m m' h => .done h
  case declare name initial _ _ =>
    obtain ⟨n, rfl⟩ := Nat.exists_eq_succ_of_ne_zero (Nat.ne_of_gt <| hd rfl)
    cases initial
    case none =>
      simp only [exec_declare_none]
      exact .done ⟨h.env.define name.content .nil, h.output⟩
    case some e =>
      simp only [exec_declare_some]
      exact h.evaluate fun v m m' h => .done ⟨h.env.define name.content v, h.output⟩
  case block body hb =>
    simp only [exec_block]
    exact (execAll_padded fuel hb h.enter).leave
  case ifThen condition branch _ hb hd' =>
    simp only [exec_ifThen]
    refine h.evaluate fun v m m' h => ?_
    split
    case isTrue => exact exec_padded fuel hb (by simp [hd']) h
    case isFalse => exact .done h
  case ifElse condition branch otherwise _ hb hd₁ _ hb' hd₂ =>
    simp only [exec_ifElse]
    refine h.evaluate fun v m m' h => ?_
    split
    case isTrue => exact exec_padded fuel hb (by simp [hd₁]) h
    case isFalse => exact exec_padded fuel hb' (by simp [hd₂]) h
  case loop condition body _ hb hd' =>
    simp only [exec_loop]
    exact h.repeatWhile (exec_padded fuel hb (by simp [hd'])) fuel

theorem execAll_padded (fuel : Nat) {stmts : List Stmt} (hw : ∀ stmt ∈ stmts, stmt.WellFormed)
    {n : Nat} {m m' : Machine} (h : m.Padded (n + 1) m') :
    (execAll fuel stmts m).Padded (n + 1) (execAll fuel stmts m') := by
  cases stmts
  case nil =>
    simp only [execAll_nil]
    exact .done h
  case cons stmt stmts =>
    have ⟨hs, hw⟩ := List.forall_mem_cons.mp hw
    simp only [execAll_cons]
    exact (exec_padded fuel hs (fun _ => n.succ_pos) h).andThen (execAll_padded fuel hw)

end

theorem execAll_singleton (fuel : Nat) (stmt : Stmt) (m : Machine) :
    execAll fuel [stmt] m = stmt.exec fuel m := by
  rw [execAll_cons]
  cases stmt.exec fuel m <;> simp [Run.andThen, execAll_nil]

theorem exec_block_singleton (fuel : Nat) {stmt : Stmt} (hw : stmt.WellFormed)
    (hd : stmt.isDeclaration = false) (m : Machine) :
    (block [stmt]).exec fuel m = stmt.exec fuel m := by
  have h : m.Padded 0 m.enter := ⟨.enter_self m.env, rfl⟩
  rw [exec_block, execAll_singleton]
  exact (exec_padded fuel hw (by simp [hd]) h).leave_eq

inductive Braced : Stmt → Stmt → Prop
  | print : Braced (print value) (print value)
  | expression : Braced (expression value) (expression value)
  | declare : Braced (declare name initial) (declare name initial)
  | block (h : Forall₂ Braced body body') : Braced (block body) (block body')
  | ifThen (h : Braced branch branch') : Braced (ifThen condition branch) (ifThen condition branch')
  | ifElse (h : Braced branch branch') (h' : Braced otherwise otherwise') :
    Braced (ifElse condition branch otherwise) (ifElse condition branch' otherwise')
  | loop (h : Braced body body') : Braced (loop condition body) (loop condition body')
  | wrap (hd : stmt.isDeclaration = false) (h : Braced stmt stmt') : Braced stmt (Stmt.block [stmt'])

mutual

theorem exec_eq_of_braced (fuel : Nat) {stmt stmt' : Stmt} (hb : stmt.Braced stmt')
    (hw : stmt.WellFormed) (m : Machine) : stmt'.exec fuel m = stmt.exec fuel m := by
  cases hb
  case print | expression | declare => rfl
  case block h =>
    cases hw
    case block hw => rw [exec_block, exec_block, execAll_eq_of_braced fuel h hw]
  case ifThen h =>
    cases hw
    case ifThen hw _ => simp only [exec_ifThen, exec_eq_of_braced fuel h hw]
  case ifElse h h' =>
    cases hw
    case ifElse hw _ _ hw' _ =>
      simp only [exec_ifElse, exec_eq_of_braced fuel h hw, exec_eq_of_braced fuel h' hw']
  case loop h =>
    cases hw
    case loop hw _ =>
      rw [exec_loop, exec_loop, funext (exec_eq_of_braced fuel h hw)]
  case wrap stmt' hd h =>
    rw [← exec_block_singleton fuel hw hd]
    simp only [exec_block, execAll_singleton, exec_eq_of_braced fuel h hw]

theorem execAll_eq_of_braced (fuel : Nat) {stmts stmts' : List Stmt}
    (hb : Forall₂ Braced stmts stmts') (hw : ∀ stmt ∈ stmts, stmt.WellFormed) (m : Machine) :
    execAll fuel stmts' m = execAll fuel stmts m := by
  cases hb
  case nil => rfl
  case cons h hl =>
    have ⟨hs, hw⟩ := List.forall_mem_cons.mp hw
    simp only [execAll_cons, exec_eq_of_braced fuel h hs]
    exact congrArg _ (funext (execAll_eq_of_braced fuel hl hw))

end

inductive BracedAtTop : Stmt → Stmt → Prop
  | expression : BracedAtTop (expression value) (expression value)
  | braced (he : ∀ value, stmt ≠ .expression value) (h : Braced stmt stmt') : BracedAtTop stmt stmt'

theorem atTop_eq_self {stmt : Stmt} (h : ∀ value, stmt ≠ expression value) : stmt.atTop = stmt := by
  cases stmt
  case expression value => exact absurd rfl (h value)
  all_goals rfl

theorem Braced.ne_expression {stmt stmt' : Stmt} (h : stmt.Braced stmt')
    (he : ∀ value, stmt ≠ .expression value) (value : Expr) : stmt' ≠ .expression value := by
  cases h
  case expression => exact he value
  all_goals nofun

theorem exec_atTop_eq_of_braced (fuel : Nat) {stmt stmt' : Stmt} (hb : stmt.BracedAtTop stmt')
    (hw : stmt.WellFormed) (m : Machine) : stmt'.atTop.exec fuel m = stmt.atTop.exec fuel m := by
  cases hb
  case expression => rfl
  case braced he h =>
    rw [atTop_eq_self he, atTop_eq_self (h.ne_expression he), exec_eq_of_braced fuel h hw]

theorem interpret_eq_of_bracedAtTop (fuel : Nat) {program program' : List Stmt}
    (hb : Forall₂ BracedAtTop program program') (hw : ∀ stmt ∈ program, stmt.WellFormed)
    (m : Machine) : interpret fuel program' m = interpret fuel program m := by
  induction hb generalizing m
  case nil => rfl
  case cons h _ hi =>
    have ⟨hs, hw⟩ := List.forall_mem_cons.mp hw
    rw [interpret_cons, interpret_cons, exec_atTop_eq_of_braced fuel h hs, funext (hi hw)]

-- Braces around a statement that declares nothing make no difference to what it does, nor to what
-- the program around it does, but for an expression at the top, which is not printed with braces.
theorem interpret_eq_of_braced {lexemes : List Lexeme} {parsed : Parsed}
    (hp : parse? lexemes = some parsed) :
    (∀ stmt ∈ nestedIn parsed.statements, stmt.isDeclaration = false → ∀ fuel m,
      (block [stmt]).exec fuel m = stmt.exec fuel m) ∧
    (∀ program, Forall₂ BracedAtTop parsed.statements program → ∀ fuel m,
      interpret fuel program m = interpret fuel parsed.statements m) ∧
    ∀ value, expression value ∈ parsed.statements → ∀ fuel m,
      interpret fuel [expression value] m = m.evaluate value (fun v m => m.writeValue v) ∧
      interpret fuel [block [expression value]] m = m.evaluate value (fun _ m => .done m) := by
  have hw := parse?_wellFormed hp
  refine ⟨fun stmt hs hd fuel m => ?alone, fun program hb fuel m => ?anywhere,
    fun value hs fuel m => ⟨?printed, ?silent⟩⟩
  case alone => exact exec_block_singleton fuel (wellFormed_of_mem_nestedIn hw hs) hd m
  case anywhere => exact interpret_eq_of_bracedAtTop fuel hb hw m
  case printed =>
    rw [interpret_eq_execAll, List.map_singleton, execAll_singleton, atTop, exec_print]
  case silent =>
    have he : (block [expression value]).atTop = block [expression value] := rfl
    rw [interpret_eq_execAll, List.map_singleton, execAll_singleton, he,
      exec_block_singleton fuel (hw _ hs) rfl, exec_expression]

theorem interpret_eq_of_braced_branches :
    let a : Lexeme := ⟨.identifier "a", "a", 1⟩
    let l (t : Token) : Lexeme := ⟨t, "", 1⟩
    let yes := l (.literal (.boolean true))
    let no := l (.literal .nil)
    let lexemes : List Lexeme := [l .leftBrace, l (.keyword .varWord), a, l .equal, yes,
      l .semicolon, l (.keyword .whileWord), l .leftParen, a, l .rightParen, a, l .equal, no,
      l .semicolon, l (.keyword .ifWord), l .leftParen, a, l .rightParen, l (.keyword .printWord), a,
      l .semicolon, l (.keyword .elseWord), l .leftBrace, l (.keyword .printWord), yes, l .semicolon,
      l .rightBrace, l .rightBrace, no, l .semicolon, l .eof]
    let first : Stmt := declare a (some (.literal (.boolean true)))
    let step : Stmt := expression (.assign a (.literal .nil))
    let last : Stmt := print (.literal (.boolean true))
    let program : List Stmt := [block [first, loop (.variable a) step,
      ifElse (.variable a) (print (.variable a)) (block [last])], expression (.literal .nil)]
    let program' : List Stmt := [block [block [first, block [loop (.variable a) (block [step])],
      ifElse (.variable a) (block [print (.variable a)]) (block [block [last]])]],
      expression (.literal .nil)]
    parse? lexemes = some { statements := program, errors := [] } ∧
      Forall₂ BracedAtTop program program' ∧ step ∈ nestedIn program ∧
      (∀ fuel m, (block [step]).exec fuel m = step.exec fuel m) ∧
      (∀ fuel m, interpret fuel program' m = interpret fuel program m) ∧
      (∃ m, interpret 2 program {} = .done m ∧
        m.output.taken.toList = Utf8.encode "true\nnil\n".toList) ∧
      interpret 0 [expression (.literal .nil)] {} = Machine.writeValue {} .nil := by
  intro a l yes no lexemes first step last program program'
  have hp : parse? lexemes = some { statements := program, errors := [] } := rfl
  have hb : Forall₂ BracedAtTop program program' :=
    .cons (.braced nofun <| .wrap rfl <| .block <| .cons .declare <|
      .cons (.wrap rfl <| .loop <| .wrap rfl .expression) <|
      .cons (.ifElse (.wrap rfl .print) (.block <| .cons (.wrap rfl .print) .nil)) .nil) <|
    .cons .expression .nil
  have hs : step ∈ nestedIn program := by simp [program, nestedIn, nested]
  obtain ⟨halone, hanywhere, htop⟩ := interpret_eq_of_braced hp
  exact ⟨hp, hb, hs, halone step hs rfl, hanywhere program' hb, ⟨_, rfl, rfl⟩,
    (htop _ (by simp [program]) 0 {}).left⟩

end Stmt
end Lox
