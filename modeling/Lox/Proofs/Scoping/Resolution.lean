import Lox.Proofs.Scoping.Reaching
import Lox.Proofs.Syntax.Soundness.Program

namespace Lox

abbrev Hops := Place → String → Nat

def Hops.part (hops : Hops) (i : Nat) : Hops :=
  fun p => hops (i :: p)

namespace Expr

-- Evaluation in which a name is looked up in a single scope. Which one it is has been laid down for
-- the place of the name before the run, as the number of blocks to leave.
def evalBy : Expr → Hops → Environment → Except Fault Value × Environment
  | .literal value, _, env => (.ok value, env)
  | .variable name, hops, env =>
    match env.getAt? (hops [] name.content) name.content with
    | some value => (.ok value, env)
    | none       => (.error name.undefined, env)
  | .grouping inner, hops, env => inner.evalBy (hops.part 0) env
  | .unary operator operand, hops, env =>
    match operand.evalBy (hops.part 0) env with
    | (.ok value, env)    => (operator.applyUnary value, env)
    | (.error fault, env) => (.error fault, env)
  | .binary left operator right, hops, env =>
    match left.evalBy (hops.part 0) env with
    | (.error fault, env) => (.error fault, env)
    | (.ok value, env)    =>
      match right.evalBy (hops.part 1) env with
      | (.error fault, env) => (.error fault, env)
      | (.ok value', env)   => (operator.applyBinary value value', env)
  | .logical left operator right, hops, env =>
    match left.evalBy (hops.part 0) env with
    | (.error fault, env) => (.error fault, env)
    | (.ok value, env)    =>
      match operator.decides value with
      | .error fault => (.error fault, env)
      | .ok true     => (.ok value, env)
      | .ok false    => right.evalBy (hops.part 1) env
  | .assign name value, hops, env =>
    match value.evalBy (hops.part 0) env with
    | (.error fault, env) => (.error fault, env)
    | (.ok value, env)    =>
      match env.assignAt? (hops [] name.content) name.content value with
      | some env => (.ok value, env)
      | none     => (.error name.undefined, env)

variable {names : Names} {env : Environment} {hops : Hops}

theorem evalBy_eq {e : Expr} (h : env.Has names) (hh : ∀ p, hops p = names.hops) :
    e.evalBy hops env = e.eval env := by
  induction e generalizing env hops
  all_goals have hp (i : Nat) : ∀ p, hops.part i p = names.hops := fun p => hh (i :: p)
  case literal => rfl
  case «variable» name =>
    rw [evalBy, hh, ← h.get?_eq]
    rfl
  case grouping hi => exact hi h (hp 0)
  case unary operand hi =>
    rw [evalBy, hi h (hp 0)]
    rfl
  case binary left _ right hi₁ hi₂ =>
    rw [evalBy, eval, hi₁ h (hp 0)]
    rcases he : left.eval env with ⟨_ | _, env₁⟩
    case error => rfl
    case ok =>
      have hr := hi₂ (h.of_eval he) (hp 1)
      dsimp only
      exact hr ▸ rfl
  case logical left operator right hi₁ hi₂ =>
    rw [evalBy, eval, hi₁ h (hp 0)]
    rcases he : left.eval env with ⟨_ | value, env₁⟩
    case error => rfl
    case ok =>
      have hr := hi₂ (h.of_eval he) (hp 1)
      dsimp only
      exact hr ▸ rfl
  case assign name value hi =>
    rw [evalBy, eval, hi h (hp 0), hh]
    rcases he : value.eval env with ⟨_ | v, env₁⟩
    case error => rfl
    case ok =>
      have ha := (h.of_eval he).assign?_eq name.content v
      dsimp only
      exact ha ▸ rfl

end Expr

def Machine.evalBy (m : Machine) (hops : Hops) (e : Expr) : Except Fault Value × Machine :=
  let (result, env) := e.evalBy hops m.env
  (result, { m with env })

def repeatWhileBy (hops : Hops) (condition : Expr) (body : Machine → Run) : Nat → Machine → Run
  | 0,        _ => .unfinished
  | fuel + 1, m =>
    match m.evalBy hops condition with
    | (.error fault, m) => .stopped (.fault fault) m
    | (.ok value, m)    =>
      if value.truthy then
        match body m with
        | .done m         => repeatWhileBy hops condition body fuel m
        | .stopped why m  => .stopped why m
        | .unfinished     => .unfinished
      else .done m

namespace Stmt

mutual

def execBy (fuel : Nat) : Stmt → Hops → Machine → Run
  | .print value, hops, m =>
    match m.evalBy (hops.part 0) value with
    | (.ok value, m)    => m.writeValue value
    | (.error fault, m) => .stopped (.fault fault) m
  | .expression value, hops, m =>
    match m.evalBy (hops.part 0) value with
    | (.ok _, m)        => .done m
    | (.error fault, m) => .stopped (.fault fault) m
  | .declare name none, _, m => .done (m.define name.content .nil)
  | .declare name (some initial), hops, m =>
    match m.evalBy (hops.part 0) initial with
    | (.ok value, m)    => .done (m.define name.content value)
    | (.error fault, m) => .stopped (.fault fault) m
  | .block body, hops, m => (execAllBy fuel body 0 hops m.enter).leave
  | .ifThen condition branch, hops, m =>
    match m.evalBy (hops.part 0) condition with
    | (.ok value, m)    => if value.truthy then branch.execBy fuel (hops.part 1) m else .done m
    | (.error fault, m) => .stopped (.fault fault) m
  | .ifElse condition branch otherwise, hops, m =>
    match m.evalBy (hops.part 0) condition with
    | (.ok value, m)    =>
      if value.truthy then branch.execBy fuel (hops.part 1) m
      else otherwise.execBy fuel (hops.part 2) m
    | (.error fault, m) => .stopped (.fault fault) m
  | .loop condition body, hops, m =>
    repeatWhileBy (hops.part 0) condition (body.execBy fuel (hops.part 1)) fuel m

def execAllBy (fuel : Nat) : List Stmt → Nat → Hops → Machine → Run
  | [],            _, _,    m => .done m
  | stmt :: stmts, i, hops, m =>
    match stmt.execBy fuel (hops.part i) m with
    | .done m        => execAllBy fuel stmts (i + 1) hops m
    | .stopped why m => .stopped why m
    | .unfinished    => .unfinished

end

def execTopBy (fuel : Nat) : Stmt → Hops → Machine → Run
  | .expression value, hops, m => (Stmt.print value).execBy fuel hops m
  | stmt,              hops, m => stmt.execBy fuel hops m

def interpretBy (fuel : Nat) : List Stmt → Nat → Hops → Machine → Run
  | [],            _, _,    m => .done m
  | stmt :: stmts, i, hops, m =>
    match stmt.execTopBy fuel (hops.part i) m with
    | .done m        => interpretBy fuel stmts (i + 1) hops m
    | .stopped why m => .stopped why m
    | .unfinished    => .unfinished

variable {names : Names} {hops : Hops}

def Fits (stmt : Stmt) (hops : Hops) (names : Names) : Prop :=
  ∀ p, hops p = (names.within (stmt.localsAt p)).hops

def FitsAll (stmts : List Stmt) (i : Nat) (hops : Hops) (names : Names) : Prop :=
  ∀ k p, hops ((i + k) :: p) =
    ((names.define <| (stmts.take k).flatMap declared).within (localsIn stmts k p)).hops

theorem FitsAll.head {stmt : Stmt} {stmts : List Stmt} {i : Nat}
    (h : FitsAll (stmt :: stmts) i hops names) : stmt.Fits (hops.part i) names := by
  intro p
  have h₀ := h 0 p
  rwa [List.take_zero, List.flatMap_nil, Names.define_nil] at h₀

theorem FitsAll.tail {stmt : Stmt} {stmts : List Stmt} {i : Nat}
    (h : FitsAll (stmt :: stmts) i hops names) :
    FitsAll stmts (i + 1) hops (names.define stmt.declared) := by
  intro k p
  have h₁ := h (k + 1) p
  rw [List.take_succ_cons, List.flatMap_cons, ← Names.define_define] at h₁
  rwa [Nat.add_right_comm, Nat.add_assoc]

theorem Fits.part {stmt : Stmt} (h : stmt.Fits hops names) {i : Nat}
    (hl : ∀ p, stmt.localsAt (i :: p) = []) : ∀ p, hops.part i p = names.hops := by
  intro p
  rw [Hops.part, h, hl, Names.within_nil]

theorem Fits.block {body : List Stmt} (h : (Stmt.block body).Fits hops names) :
    FitsAll body 0 hops names.enter := by
  intro k p
  rw [Nat.zero_add, h, Names.define_enter, Names.within_within]
  rfl

end Stmt

variable {names : Names} {hops : Hops}

theorem Machine.evalBy_eq {m : Machine} {e : Expr} (h : m.env.Has names)
    (hh : ∀ p, hops p = names.hops) : m.evalBy hops e = m.eval e := by
  rw [evalBy, eval, Expr.evalBy_eq h hh]

theorem repeatWhileBy_eq {condition : Expr} {body body' : Machine → Run} {fuel : Nat} {m : Machine}
    (hh : ∀ p, hops p = names.hops) (hb : ∀ {m}, m.env.Has names → body' m = body m)
    (hk : ∀ {m m'}, m.env.Has names → body m = .done m' → m'.env.Has names)
    (h : m.env.Has names) :
    repeatWhileBy hops condition body' fuel m = repeatWhile condition body fuel m := by
  induction fuel generalizing m
  case zero => rfl
  case succ fuel hi =>
    rw [repeatWhileBy, repeatWhile, m.evalBy_eq h hh]
    rcases he : m.eval condition with ⟨_ | value, m₁⟩
    case error => rfl
    case ok =>
      have h₁ := m.has_eval h he
      dsimp only
      rw [hb h₁]
      cases hb₁ : body m₁
      case done m₂ =>
        dsimp only
        rw [hi (hk h₁ hb₁)]
      all_goals rfl

namespace Stmt

mutual

theorem execBy_eq {fuel : Nat} {stmt : Stmt} {names : Names} {hops : Hops} {m : Machine}
    (hw : stmt.WellFormed) (h : m.env.Has names) (hf : stmt.Fits hops names) :
    stmt.execBy fuel hops m = stmt.exec fuel m := by
  cases hw
  case print | expression =>
    rw [execBy, m.evalBy_eq h <| hf.part fun _ => rfl]
    rfl
  case declare name initial _ _ =>
    cases initial
    case none => rfl
    case some =>
      rw [execBy, m.evalBy_eq h <| hf.part fun _ => rfl]
      rfl
  case block body hb =>
    rw [execBy, exec, execAllBy_eq hb h.enter hf.block]
  case ifThen condition branch _ hb _ =>
    rw [execBy, exec, m.evalBy_eq h <| hf.part fun _ => rfl]
    rcases he : m.eval condition with ⟨_ | value, m₁⟩
    case error => rfl
    case ok =>
      have hf₁ : branch.Fits (hops.part 1) names := fun p => hf (1 :: p)
      dsimp only
      rw [execBy_eq hb (m.has_eval h he) hf₁]
  case ifElse condition branch otherwise _ hb _ _ hb' _ =>
    rw [execBy, exec, m.evalBy_eq h <| hf.part fun _ => rfl]
    rcases he : m.eval condition with ⟨_ | value, m₁⟩
    case error => rfl
    case ok =>
      have h₁ := m.has_eval h he
      have hf₁ : branch.Fits (hops.part 1) names := fun p => hf (1 :: p)
      have hf₂ : otherwise.Fits (hops.part 2) names := fun p => hf (2 :: p)
      dsimp only
      rw [execBy_eq hb h₁ hf₁, execBy_eq hb' h₁ hf₂]
  case loop condition body _ hb hd =>
    rw [execBy, exec]
    exact repeatWhileBy_eq (hf.part fun _ => rfl) (fun h => execBy_eq hb h fun p => hf (1 :: p))
      (fun h hr => (has_exec hb h hr).of_declared hd) h

theorem execAllBy_eq {fuel : Nat} {stmts : List Stmt} {names : Names} {i : Nat} {hops : Hops}
    {m : Machine} (hw : ∀ stmt ∈ stmts, stmt.WellFormed) (h : m.env.Has names)
    (hf : FitsAll stmts i hops names) : execAllBy fuel stmts i hops m = execAll fuel stmts m := by
  cases stmts
  case nil => rfl
  case cons stmt stmts =>
    have ⟨hs, hw⟩ := List.forall_mem_cons.mp hw
    rw [execAllBy, execAll, execBy_eq hs h hf.head]
    cases he : stmt.exec fuel m
    case done m₁ => exact execAllBy_eq hw (has_exec hs h he) hf.tail
    all_goals rfl

end

theorem execTopBy_eq {fuel : Nat} {stmt : Stmt} {m : Machine} (hw : stmt.WellFormed)
    (h : m.env.Has names) (hf : stmt.Fits hops names) :
    stmt.execTopBy fuel hops m = stmt.execTop fuel m := by
  cases stmt
  case expression value =>
    cases hw
    case expression hv => exact execBy_eq (.print hv) h fun p => hf p
  all_goals exact execBy_eq hw h hf

theorem interpretBy_eq {fuel : Nat} {stmts : List Stmt} {i : Nat} {m : Machine}
    (hw : ∀ stmt ∈ stmts, stmt.WellFormed) (h : m.env.Has names)
    (hf : FitsAll stmts i hops names) :
    interpretBy fuel stmts i hops m = interpret fuel stmts m := by
  induction stmts generalizing i names m
  case nil => rfl
  case cons stmt stmts hi =>
    have ⟨hs, hw⟩ := List.forall_mem_cons.mp hw
    rw [interpretBy, interpret, execTopBy_eq hs h hf.head]
    cases he : stmt.execTop fuel m
    case done m₁ => exact hi hw (has_execTop hs h he) hf.tail
    all_goals rfl

-- How many blocks there are to leave is told by the program alone, whatever names are known before
-- it is run: these are globals, for which all blocks are left anyway.
def hopsAt (program : List Stmt) : Hops :=
  fun p => (namesAt [] program p).hops

theorem hops_namesAt (known : List String) (program : List Stmt) (p : Place) :
    (namesAt known program p).hops = hopsAt program p := by
  cases p <;> rfl

theorem fitsAll_hopsAt (known : List String) (program : List Stmt) :
    FitsAll program 0 (hopsAt program) { globals := known } := by
  intro k p
  rw [Nat.zero_add, ← hops_namesAt known, Names.define, Names.within, List.append_nil]
  rfl

end Stmt

def Expr.Resolves (hops : String → Nat) (names : Names) (env : Environment) : Expr → Prop
  | .variable name =>
    match env.getAt? (hops name.content) name.content with
    | some value =>
      names.Defines name.content ∧ (Expr.variable name).eval env = (.ok value, env)
    | none =>
      ¬names.Defines name.content ∧ (Expr.variable name).eval env = (.error name.undefined, env)
  | .assign name value => ∀ v env₁, value.eval env = (.ok v, env₁) →
    match env₁.assignAt? (hops name.content) name.content v with
    | some env₂ =>
      names.Defines name.content ∧ (Expr.assign name value).eval env = (.ok v, env₂)
    | none =>
      ¬names.Defines name.content ∧
        (Expr.assign name value).eval env = (.error name.undefined, env₁)
  | _ => True

theorem Environment.Has.resolves {env : Environment} (h : env.Has names) (e : Expr) :
    e.Resolves names.hops names env := by
  cases e
  case «variable» name =>
    have hd := h.isSome_getAt? name.content
    rw [Expr.Resolves, Expr.eval, h.get?_eq]
    cases hg : env.getAt? (names.hops name.content) name.content
    all_goals rw [hg] at hd
    case none => exact ⟨fun hn => absurd (hd.mpr hn) Bool.false_ne_true, rfl⟩
    case some => exact ⟨hd.mp rfl, rfl⟩
  case assign name value =>
    intro v env₁ he
    have h₁ := h.of_eval he
    have hd := h₁.isSome_getAt? name.content
    rw [← isSome_assignAt? _ _ _ v] at hd
    simp only [Expr.eval, he, h₁.assign?_eq]
    cases ha : env₁.assignAt? (names.hops name.content) name.content v
    all_goals rw [ha] at hd
    case none => exact ⟨fun hn => absurd (hd.mpr hn) Bool.false_ne_true, rfl⟩
    case some => exact ⟨hd.mp rfl, rfl⟩
  all_goals trivial

namespace Stmt

-- At each place that a run of a program reaches, each scope has the names that the place tells, and
-- names are found in the scope that the place tells. So it is enough to look there.
theorem interpret_resolves_statically {lexemes : List Lexeme} {parsed : Parsed}
    (hp : parse? lexemes = some parsed) {m : Machine} (hm : m.env.locals = []) :
    let program := parsed.statements
    let known := m.env.globals.names
    (∀ place node env, RunReaches program m place node env →
      env.Has (namesAt known program place) ∧
        ∀ e, node = .expression e →
          e.Resolves (hopsAt program place) (namesAt known program place) env) ∧
    ∀ fuel, interpretBy fuel program 0 (hopsAt program) m = interpret fuel program m := by
  intro program known
  have hw := parse?_wellFormed hp
  refine ⟨fun place node env hr => ?_, fun fuel => ?_⟩
  case refine_1 =>
    have h := hr.has hw hm
    refine ⟨h, fun e _ => ?_⟩
    rw [← hops_namesAt known]
    exact h.resolves e
  case refine_2 =>
    have h : m.env.Has { globals := known } := ⟨fun _ => Iff.rfl, by rw [hm]; exact .nil⟩
    exact interpretBy_eq hw h <| fitsAll_hopsAt known program

theorem interpret_resolves_statically_of_shadowed :
    let a : Lexeme := ⟨.identifier "a", "a", 1⟩
    let l (t : Token) : Lexeme := ⟨t, "", 1⟩
    let lexemes : List Lexeme := [l (.keyword .varWord), a, l .semicolon, l .leftBrace,
      l (.keyword .printWord), a, l .semicolon, l (.keyword .varWord), a, l .semicolon,
      l .leftBrace, a, l .equal, l (.literal .nil), l .semicolon, l .rightBrace, l .rightBrace,
      l .eof]
    let program : List Stmt := [.declare a none, .block [.print (.variable a), .declare a none,
      .block [.expression (.assign a (.literal .nil))]]]
    let printing : Environment := Environment.enter <| Environment.define {} "a" .nil
    parse? lexemes = some { statements := program, errors := [] } ∧
      hopsAt program [1, 0, 0] "a" = 1 ∧ hopsAt program [1, 2, 0, 0] "a" = 1 ∧
      RunReaches program {} [1, 0, 0] (.expression (.variable a)) printing ∧
      printing.Has { globals := ["a"], locals := [[]] } ∧
      ∀ fuel, interpretBy fuel program 0 (hopsAt program) {} = interpret fuel program {} := by
  intro a l lexemes program printing
  have hp : parse? lexemes = some { statements := program, errors := [] } := rfl
  have h := interpret_resolves_statically hp (m := {}) rfl
  have hb : execAll 0 [] (Machine.enter ⟨Environment.define {} "a" .nil, {}⟩) =
      .done ⟨printing, {}⟩ := rfl
  have hr : RunReaches program {} [1, 0, 0] (.expression (.variable a)) printing :=
    .mk rfl (rfl : interpret 0 [.declare a none] {} = .done _) <| .block rfl hb <| .print .here
  exact ⟨hp, by decide, by decide, hr, (h.left _ _ _ hr).left, h.right⟩

end Stmt
end Lox
