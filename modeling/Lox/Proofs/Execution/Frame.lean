import Lox.Proofs.Execution.Safety

namespace Lox

def Expr.assigned : Expr → List String
  | literal _            => []
  | .variable _          => []
  | grouping inner       => inner.assigned
  | unary _ operand      => operand.assigned
  | binary left _ right  => left.assigned ++ right.assigned
  | logical left _ right => left.assigned ++ right.assigned
  | assign name value    => value.assigned ++ [name.content]

namespace Stmt

mutual

-- The names that are assigned to in a statement, other than those that are its own: declared before
-- that, directly in one of its blocks around the assignment.
def assigned : Stmt → List String
  | print value                       => value.assigned
  | expression value                  => value.assigned
  | declare _ none                    => []
  | declare _ (some initial)          => initial.assigned
  | block body                        => assignedIn body
  | ifThen condition branch           => condition.assigned ++ branch.assigned
  | ifElse condition branch otherwise =>
    condition.assigned ++ (branch.assigned ++ otherwise.assigned)
  | loop condition body               => condition.assigned ++ body.assigned

def assignedIn : List Stmt → List String
  | []            => []
  | stmt :: stmts => stmt.assigned ++ (assignedIn stmts).filter (· ∉ stmt.declared)

end

end Stmt

namespace Environment

def valueAt? (env : Environment) (i : Nat) (name : String) : Option Value :=
  env.scopes[i]?.bind (·.get? name)

inductive Assigns (names : List String) : Environment → Environment → Prop
  | refl : Assigns names env env
  | step (ha : env.assign? name value = some env₁) (hn : name ∈ names)
    (h : Assigns names env₁ env₂) : Assigns names env env₂

variable {env env' env₁ env₂ : Environment} {name : String} {value : Value}

theorem length_scopes (env : Environment) : env.scopes.length = env.depth := by
  simp [scopes, depth]

theorem valueAt?_enter_succ (env : Environment) (i : Nat) (name : String) :
    env.enter.valueAt? (i + 1) name = env.valueAt? i name :=
  rfl

theorem valueAt?_of_leave? (h : env.leave? = some env') (i : Nat) (name : String) :
    env'.valueAt? i name = env.valueAt? (i + 1) name := by
  have ⟨globals, locals⟩ := env
  cases locals <;> cases h
  rfl

theorem valueAt?_define (env : Environment) (name : String) (value : Value) (i : Nat)
    (name' : String) : (env.define name value).valueAt? i name' =
      if i = 0 ∧ name' = name then some value else env.valueAt? i name' := by
  have ⟨s, ss, hs, hd⟩ := env.exists_scopes_define name value
  cases i
  case zero => simp [valueAt?, hs, hd, Scope.get?_set]
  case succ i => simp [valueAt?, hs, hd]

theorem scopes_setScope {hops : Nat} (h : hops < env.depth) (s : Scope) :
    (env.setScope hops s).scopes = env.scopes.set hops s := by
  simp only [setScope, scopes, List.set_append, depth] at h ⊢
  split
  case isTrue => rfl
  case isFalse =>
    obtain rfl : hops = env.locals.length := by omega
    simp

theorem getElem?_scopes {hops : Nat} (h : hops < env.depth) :
    env.scopes[hops]? = some (env.scopeAt hops) := by
  simp only [scopes, scopeAt, depth, List.getElem?_append, List.getD_eq_getElem?_getD] at h ⊢
  split
  case isTrue hl => simp [hl]
  case isFalse =>
    obtain rfl : hops = env.locals.length := by omega
    simp

theorem exists_of_assign? (h : env.assign? name value = some env') :
    ∃ i, env'.depth = env.depth ∧ (env.valueAt? i name).isSome ∧
      (∀ j < i, env.valueAt? j name = none) ∧
      ∀ j name', env'.valueAt? j name' =
        if j = i ∧ name' = name then some value else env.valueAt? j name' := by
  have hn := env.has_names
  rw [hn.assign?_eq, assignAt?] at h
  split at h
  case isFalse => contradiction
  case isTrue hv =>
    cases h
    generalize hi : env.names.hops name = i at hv ⊢
    have hd : i < env.depth := by
      have hl : i ≤ env.names.locals.length := hi ▸ List.findIdx_le_length
      rw [depth, hn.locals.length_eq]
      exact Nat.lt_succ_of_le hl
    have hs := scopes_setScope hd ((env.scopeAt i).set name value)
    refine ⟨i, ?depth, ?found, ?first, ?values⟩
    case depth => rw [← length_scopes, hs, List.length_set, length_scopes]
    case found =>
      rw [valueAt?, getElem?_scopes hd]
      exact hv
    case first =>
      intro j hj
      have hj' : j < env.locals.length := by
        rw [depth] at hd
        omega
      have hf : name ∉ (env.locals[j]).names := by
        have hf := List.not_of_lt_findIdx (hi ▸ hj : j < env.names.locals.findIdx _)
        simpa [names] using hf
      rw [valueAt?, scopes, List.getElem?_append_left hj', List.getElem?_eq_getElem hj']
      exact Option.not_isSome_iff_eq_none.mp <| mt (Scope.get?_isSome_iff ..).mp hf
    case values =>
      intro j name'
      simp only [valueAt?, hs, List.getElem?_set, length_scopes, hd, if_true]
      by_cases hj : j = i
      case pos =>
        subst hj
        simp [Scope.get?_set, getElem?_scopes hd]
      case neg => simp [hj, Ne.symm hj]

-- What has changed from one environment to another: names have been added to the innermost scope,
-- and values have changed where names are found first. The values of added names may be any.
structure Changes (assigned declared : List String) (env env' : Environment) : Prop where
  depth  : env'.depth = env.depth
  names  : ∀ i name, (env'.valueAt? i name).isSome ↔
    (env.valueAt? i name).isSome ∨ i = 0 ∧ name ∈ declared
  values : ∀ i name, env'.valueAt? i name ≠ env.valueAt? i name →
    i = 0 ∧ name ∈ declared ∨ name ∈ assigned ∧ ∀ j < i, env.valueAt? j name = none

namespace Changes

variable {assigned assigned' declared declared' : List String}

theorem refl (env : Environment) : Changes assigned [] env env where
  depth  := rfl
  names  := by simp
  values := fun _ _ h => absurd rfl h

theorem mono (h : Changes assigned declared env env') (hs : assigned ⊆ assigned') :
    Changes assigned' declared env env' where
  depth  := h.depth
  names  := h.names
  values := fun i name hv => (h.values i name hv).imp_right <| And.imp_left (hs ·)

theorem eq_none (h : Changes assigned declared env env') {i : Nat}
    (hn : env'.valueAt? i name = none) :
    env.valueAt? i name = none ∧ ¬(i = 0 ∧ name ∈ declared) := by
  have hd := (h.names i name).not
  simpa [hn] using hd

theorem trans (h : Changes assigned declared env env₁)
    (h' : Changes assigned' declared' env₁ env₂) :
    Changes (assigned ++ assigned'.filter (· ∉ declared)) (declared ++ declared') env env₂ where
  depth  := h'.depth.trans h.depth
  names  := fun i name => by
    rw [h'.names, h.names, List.mem_append, and_or_left, or_assoc]
  values := fun i name hv => by
    by_cases hd : i = 0 ∧ name ∈ declared
    case pos => exact .inl ⟨hd.left, List.mem_append_left _ hd.right⟩
    case neg =>
    by_cases hv₁ : env₁.valueAt? i name = env.valueAt? i name
    case neg =>
      have ⟨ha, hj⟩ := (h.values i name hv₁).resolve_left hd
      exact .inr ⟨List.mem_append_left _ ha, hj⟩
    case pos =>
      cases h'.values i name (hv₁ ▸ hv)
      case inl hd' => exact .inl ⟨hd'.left, List.mem_append_right _ hd'.right⟩
      case inr ha =>
        have ⟨ha, hj⟩ := ha
        -- An assignment stops at the first scope with the name. So it does not get past a
        -- declaration that was made on the way, which is in the innermost scope.
        have hn : name ∉ declared := fun hn => by
          cases i
          case zero => exact hd ⟨rfl, hn⟩
          case succ i => exact (h.eq_none (hj 0 i.succ_pos)).right ⟨rfl, hn⟩
        exact .inr ⟨List.mem_append_right _ <| List.mem_filter.mpr ⟨ha, by simpa using hn⟩,
          fun j hl => (h.eq_none (hj j hl)).left⟩

theorem append (h : Changes assigned [] env env₁) (h' : Changes assigned' declared env₁ env₂) :
    Changes (assigned ++ assigned') declared env env₂ := by
  have ht := h.trans h'
  rwa [List.nil_append, List.filter_eq_self.mpr (by simp)] at ht

theorem of_assign? (h : env.assign? name value = some env') (hn : name ∈ assigned) :
    Changes assigned [] env env' := by
  have ⟨i, hd, hs, hf, hv⟩ := exists_of_assign? h
  refine ⟨hd, fun j name' => ?_, fun j name' hc => .inr ?_⟩
  case refine_1 =>
    rw [hv]
    split
    case isTrue he => simp [he.left, he.right, hs]
    case isFalse => simp
  case refine_2 =>
    rw [hv] at hc
    split at hc
    case isTrue he => exact ⟨he.right ▸ hn, fun k hk => he.right ▸ hf k (he.left ▸ hk)⟩
    case isFalse => exact absurd rfl hc

theorem of_define (env : Environment) (name : String) (value : Value) :
    Changes [] [name] env (env.define name value) where
  depth  := env.depth_define name value
  names  := fun i name' => by
    rw [valueAt?_define, List.mem_singleton]
    split
    case isTrue h => simp [h]
    case isFalse h => simp [h]
  values := fun i name' hc => .inl <| by
    rw [valueAt?_define] at hc
    split at hc
    case isTrue h => exact ⟨h.left, List.mem_singleton.mpr h.right⟩
    case isFalse => exact absurd rfl hc

theorem leave? (h : Changes assigned declared env.enter env₁) :
    ∃ env₂, env₁.leave? = some env₂ ∧ Changes assigned [] env env₂ := by
  obtain ⟨globals, locals⟩ := env₁
  have hd := h.depth
  cases locals
  case nil => simp [Environment.depth, enter] at hd
  case cons s ss =>
    have hl : Environment.leave? ⟨globals, s :: ss⟩ = some ⟨globals, ss⟩ := rfl
    refine ⟨_, hl, by simpa [Environment.depth, enter] using hd, fun i name => ?names,
      fun i name hc => .inr ?values⟩
    case names => simp [valueAt?_of_leave? hl, h.names, valueAt?_enter_succ]
    case values =>
      rw [valueAt?_of_leave? hl, ← env.valueAt?_enter_succ] at hc
      obtain ⟨ha, hj⟩ := (h.values _ _ hc).resolve_left (by simp)
      exact ⟨ha, fun j hl => hj (j + 1) (Nat.succ_lt_succ hl)⟩

end Changes

namespace Assigns

variable {names names' : List String}

theorem trans (h : Assigns names env env₁) (h' : Assigns names env₁ env₂) :
    Assigns names env env₂ := by
  induction h
  case refl => exact h'
  case step ha hn _ hi => exact .step ha hn (hi h')

theorem mono (h : Assigns names env env') (hs : names ⊆ names') : Assigns names' env env' := by
  induction h
  case refl => exact .refl
  case step ha hn _ hi => exact .step ha (hs hn) hi

theorem append (h : Assigns names env env₁) (h' : Assigns names' env₁ env₂) :
    Assigns (names ++ names') env env₂ :=
  (h.mono <| List.subset_append_left ..).trans (h'.mono <| List.subset_append_right ..)

theorem changes (h : Assigns names env env') : Changes names [] env env' := by
  induction h
  case refl => exact .refl _
  case step ha hn _ hi =>
    exact ((Changes.of_assign? ha hn).append hi).mono <| List.append_subset.mpr ⟨by simp, by simp⟩

theorem eq_of_nil (h : Assigns [] env env') : env' = env := by
  cases h
  case refl => rfl
  case step hn _ => contradiction

end Assigns
end Environment

namespace Expr

theorem assigns_eval (e : Expr) (env : Environment) : env.Assigns e.assigned (e.eval env).2 := by
  induction e generalizing env
  case literal => exact .refl
  case «variable» name =>
    rw [eval]
    split <;> exact .refl
  case grouping hi => exact hi env
  case unary operator operand hi =>
    have h := hi env
    rw [eval]
    generalize operand.eval env = r at h ⊢
    rcases r with ⟨_ | _, _⟩ <;> exact h
  case binary left operator right hi hi' =>
    have h := hi env
    rw [eval]
    generalize left.eval env = r at h ⊢
    rcases r with ⟨_ | v, env₁⟩
    case error => exact h.mono <| List.subset_append_left ..
    case ok =>
      have h' := h.append (hi' env₁)
      dsimp only
      generalize right.eval env₁ = r' at h' ⊢
      rcases r' with ⟨_ | _, _⟩ <;> exact h'
  case logical left operator right hi hi' =>
    have h := hi env
    rw [eval]
    generalize left.eval env = r at h ⊢
    rcases r with ⟨_ | v, env₁⟩
    case error => exact h.mono <| List.subset_append_left ..
    case ok =>
      dsimp only
      rcases operator.decides v with _ | _ | _
      case ok.false => exact h.append (hi' env₁)
      all_goals exact h.mono <| List.subset_append_left ..
  case assign name value hi =>
    have h := hi env
    rw [eval]
    generalize value.eval env = r at h ⊢
    rcases r with ⟨_ | v, env₁⟩
    case error => exact h.mono <| List.subset_append_left ..
    case ok =>
      dsimp only
      split
      case h_1 ha => exact h.append (.step ha (List.mem_singleton.mpr rfl) .refl)
      case h_2 => exact h.mono <| List.subset_append_left ..

end Expr

def Run.Changes (assigned declared : List String) (env : Environment) : Run → Prop
  | done m      => env.Changes assigned declared m.env
  | stopped _ m => env.Changes assigned [] m.env
  | unfinished  => True

variable {assigned assigned' declared : List String} {m : Machine} {r : Run}

theorem Run.Changes.mono {env : Environment} (h : r.Changes assigned declared env)
    (hs : assigned ⊆ assigned') : r.Changes assigned' declared env := by
  cases r
  case done | stopped => exact Environment.Changes.mono h hs
  case unfinished => trivial

theorem Run.Changes.after {env env₁ : Environment} (h : env.Changes assigned [] env₁)
    (h' : r.Changes assigned' declared env₁) :
    r.Changes (assigned ++ assigned') declared env := by
  cases r
  case done | stopped => exact h.append h'
  case unfinished => trivial

theorem Run.Changes.andThen {env : Environment} {next : Machine → Run}
    (h : r.Changes assigned [] env) (hn : ∀ m, (next m).Changes assigned' declared m.env) :
    (r.andThen next).Changes (assigned ++ assigned') declared env := by
  cases r
  case done m => exact .after h (hn m)
  case stopped => exact Environment.Changes.mono h <| List.subset_append_left ..
  case unfinished => trivial

namespace Machine

theorem changes_evaluate {e : Expr} {next : Value → Machine → Run}
    (hn : ∀ v m₁, (next v m₁).Changes assigned declared m₁.env) :
    (m.evaluate e next).Changes (e.assigned ++ assigned) declared m.env := by
  have h := (e.assigns_eval m.env).changes
  rw [evaluate, eval]
  generalize e.eval m.env = r at h ⊢
  rcases r with ⟨_ | v, env₁⟩
  case error => exact Environment.Changes.mono h <| List.subset_append_left ..
  case ok => exact .after h (hn v ⟨env₁, m.output⟩)

theorem changes_evaluate_of_nil {e : Expr} {next : Value → Machine → Run}
    (hn : ∀ v m₁, (next v m₁).Changes [] declared m₁.env) :
    (m.evaluate e next).Changes e.assigned declared m.env := by
  have h := changes_evaluate (m := m) (e := e) hn
  rwa [List.append_nil] at h

theorem changes_writeValue (m : Machine) (value : Value) :
    (m.writeValue value).Changes [] [] m.env := by
  have ⟨env, output⟩ := m
  rw [writeValue]
  split <;> exact .refl env

theorem changes_repeatWhile {condition : Expr} {body : Machine → Run}
    (hb : ∀ m : Machine, (body m).Changes assigned [] m.env) (fuel : Nat) (m : Machine) :
    (repeatWhile condition body fuel m).Changes (condition.assigned ++ assigned) [] m.env := by
  induction fuel generalizing m
  case zero => trivial
  case succ fuel hi =>
    -- The rounds behind the first assign what it assigns, and nothing besides.
    have hs : condition.assigned ++ (assigned ++ (condition.assigned ++ assigned)) ⊆
      condition.assigned ++ assigned := by simp
    rw [repeatWhile_succ]
    refine .mono (changes_evaluate fun v m₁ => ?_) hs
    split
    case isFalse => exact .refl m₁.env
    case isTrue => exact (hb m₁).andThen hi

theorem changes_leave (h : ∀ m₁ ∈ r.machine?, ∃ declared, m.env.enter.Changes assigned declared m₁.env) :
    r.leave.Changes assigned [] m.env := by
  cases r
  case unfinished => trivial
  case done m₁ | stopped m₁ =>
    have ⟨_, h⟩ := h m₁ rfl
    have ⟨env₂, hl, h⟩ := h.leave?
    simp only [Run.leave, hl]
    exact h

end Machine

namespace Stmt

mutual

theorem changes_exec (fuel : Nat) {stmt : Stmt} (hw : stmt.WellFormed) (m : Machine) :
    (stmt.exec fuel m).Changes stmt.assigned stmt.declared m.env := by
  cases hw
  case print value _ =>
    rw [exec_print]
    exact Machine.changes_evaluate_of_nil fun v m₁ => m₁.changes_writeValue v
  case expression value _ =>
    rw [exec_expression]
    exact Machine.changes_evaluate_of_nil fun _ m₁ => Environment.Changes.refl m₁.env
  case declare name initial _ _ =>
    cases initial
    case none =>
      rw [exec_declare_none]
      exact .of_define m.env name.content .nil
    case some e =>
      rw [exec_declare_some]
      exact Machine.changes_evaluate_of_nil fun v m₁ =>
        Environment.Changes.of_define m₁.env name.content v
  case block body hb =>
    rw [exec_block]
    exact Machine.changes_leave <| changes_execAll fuel hb m.enter
  case ifThen condition branch _ hb hd =>
    have h := changes_exec fuel hb
    rw [declared_eq_nil hd] at h
    rw [exec_ifThen]
    refine Machine.changes_evaluate fun v m₁ => ?_
    split
    case isTrue => exact h m₁
    case isFalse => exact .refl m₁.env
  case ifElse condition branch otherwise _ hb hd _ hb' hd' =>
    have h := changes_exec fuel hb
    have h' := changes_exec fuel hb'
    rw [declared_eq_nil hd] at h
    rw [declared_eq_nil hd'] at h'
    rw [exec_ifElse]
    refine Machine.changes_evaluate fun v m₁ => ?_
    split
    case isTrue => exact (h m₁).mono <| List.subset_append_left ..
    case isFalse => exact (h' m₁).mono <| List.subset_append_right ..
  case loop condition body _ hb hd =>
    have h := changes_exec fuel hb
    rw [declared_eq_nil hd] at h
    rw [exec_loop]
    exact Machine.changes_repeatWhile h fuel m

theorem changes_execAll (fuel : Nat) {stmts : List Stmt} (hw : ∀ stmt ∈ stmts, stmt.WellFormed)
    (m : Machine) : ∀ m₁ ∈ (execAll fuel stmts m).machine?,
      ∃ declared, m.env.Changes (assignedIn stmts) declared m₁.env := by
  cases stmts
  case nil =>
    intro m₁ hm
    cases hm
    exact ⟨[], .refl m.env⟩
  case cons stmt stmts =>
    have ⟨hs, hw⟩ := List.forall_mem_cons.mp hw
    have h := changes_exec fuel hs m
    rw [execAll_cons]
    cases he : stmt.exec fuel m
    all_goals rw [he] at h
    case done m' =>
      intro m₁ hm
      have ⟨declared, h'⟩ := changes_execAll fuel hw m' m₁ hm
      exact ⟨_, h.trans h'⟩
    case stopped =>
      intro m₁ hm
      cases hm
      exact ⟨[], h.mono <| List.subset_append_left ..⟩
    case unfinished => nofun

end

-- A statement changes no more than it says, however it ends. An expression changes nothing if
-- nothing is assigned to in it.
theorem exec_changes {lexemes : List Lexeme} {parsed : Parsed} (hp : parse? lexemes = some parsed)
    {stmt : Stmt} (hs : stmt ∈ nestedIn parsed.statements) (fuel : Nat) (m m' : Machine) :
    (stmt.exec fuel m = .done m' → m.env.Changes stmt.assigned stmt.declared m'.env) ∧
      (∀ why, stmt.exec fuel m = .stopped why m' → m.env.Changes stmt.assigned [] m'.env) ∧
      ∀ e : Expr, e.assigned = [] → (e.eval m.env).2 = m.env := by
  have h := changes_exec fuel (wellFormed_of_mem_nestedIn (parse?_wellFormed hp) hs) m
  refine ⟨fun he => ?done, fun why he => ?stopped, fun e he => ?expression⟩
  case done => rwa [he] at h
  case stopped => rwa [he] at h
  case expression => exact (he ▸ e.assigns_eval m.env).eq_of_nil

theorem exec_changes_of_shadowed :
    let a : Lexeme := ⟨.identifier "a", "a", 1⟩
    let b : Lexeme := ⟨.identifier "b", "b", 1⟩
    let l (t : Token) : Lexeme := ⟨t, "", 1⟩
    let lexemes : List Lexeme := [l .leftBrace, l (.keyword .varWord), a, l .semicolon,
      l .leftBrace, a, l .equal, b, l .equal, l (.literal (.boolean true)), l .semicolon,
      l (.keyword .varWord), b, l .semicolon, b, l .equal, l (.literal .nil), l .semicolon,
      l .minus, b, l .semicolon, l .rightBrace, l .rightBrace, l .eof]
    let inner : Stmt := .block [.expression (.assign a (.assign b (.literal (.boolean true)))),
      .declare b none, .expression (.assign b (.literal .nil)),
      .expression (.unary (l .minus) (.variable b))]
    let program : List Stmt := [.block [.declare a none, inner]]
    let env : Environment := Environment.define {} "a" .nil
    let m : Machine := { env := ((env.define "b" .nil).enter).define "a" .nil }
    parse? lexemes = some { statements := program, errors := [] } ∧ inner ∈ nestedIn program ∧
      ∃ m', inner.exec 0 m = .stopped (.fault (.error ⟨.operandMustBeNumber, l .minus⟩)) m' ∧
        m.env.Changes ["b", "a"] [] m'.env ∧ m'.env.valueAt? 0 "a" = some (.boolean true) ∧
        m'.env.valueAt? 1 "a" = some .nil ∧ m'.env.valueAt? 1 "b" = some (.boolean true) := by
  intro a b l lexemes inner program env m
  have hp : parse? lexemes = some { statements := program, errors := [] } := rfl
  have hs : inner ∈ nestedIn program := by simp [program, nestedIn, nested, inner]
  have hr : inner.exec 0 m = .stopped _ _ := rfl
  exact ⟨hp, hs, _, hr, ((exec_changes hp hs 0 m _).right.left _ hr), rfl, rfl, rfl⟩

end Stmt
end Lox
