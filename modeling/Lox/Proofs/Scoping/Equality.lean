import Mathlib
import Lox.Proofs.Execution.Frame

namespace Lox

open List (Forall₂)

namespace Value

theorem equal_self_iff (v : Value) : v.equal v ↔ ∀ x, v = number x → x.isNaN = false := by
  cases v
  case number x =>
    simp only [equal, Float.beq_self_iff, Float.isNaN_eq_decide_eq_nan, number.injEq, forall_eq',
      decide_eq_false_iff_not, ne_eq]
  all_goals simp [equal]

theorem equal_zeros : (number 0).equal (number (-0)) := by
  decide +kernel

end Value

namespace Scope

structure Agrees (s s' : Scope) : Prop where
  names  : ∀ name, name ∈ s.names ↔ name ∈ s'.names
  values : ∀ name v v', s.get? name = some v → s'.get? name = some v' → v.equal v'

theorem find?_eq_some_iff {es : List (String × Value)} (hd : (es.map Prod.fst).Nodup)
    (name : String) (v : Value) : find? name es = some v ↔ (name, v) ∈ es := by
  induction es
  case nil => simp [find?]
  case cons e es hi =>
    obtain ⟨n, w⟩ := e
    rw [List.map_cons, List.nodup_cons] at hd
    rw [find?, List.mem_cons, Prod.mk.injEq]
    split
    case isTrue hn =>
      subst hn
      have hm : (n, v) ∉ es := fun hm => hd.left <| List.mem_map.mpr ⟨_, hm, rfl⟩
      simp only [hm, or_false, true_and, Option.some.injEq]
      exact eq_comm
    case isFalse hn => simp only [Ne.symm hn, false_and, false_or, hi hd.right]

theorem get?_eq_some_iff (s : Scope) (name : String) (v : Value) :
    s.get? name = some v ↔ (name, v) ∈ s.entries :=
  find?_eq_some_iff s.distinct ..

theorem equal_iff (s s' : Scope) : s.equal s' ↔ s.names.length = s'.names.length ∧
    ∀ name v, s.get? name = some v → ∃ v', s'.get? name = some v' ∧ v.equal v' := by
  rw [equal, Bool.and_eq_true, beq_iff_eq, List.all_eq_true, names, names, List.length_map,
    List.length_map]
  refine and_congr_right fun _ => ⟨fun h name v hv => ?mp, fun h e he => ?mpr⟩
  case mp =>
    have hm := h _ <| (s.get?_eq_some_iff name v).mp hv
    dsimp only at hm
    split at hm
    case h_1 v' hv' => exact ⟨v', hv', hm⟩
    case h_2 => contradiction
  case mpr =>
    have ⟨v', hv', hv⟩ := h e.1 e.2 <| (s.get?_eq_some_iff ..).mpr he
    simp only [hv', hv]

theorem get?_set_eq_update (s : Scope) (name : String) (value : Value) :
    (s.set name value).get? = Function.update s.get? name (some value) := by
  funext n
  rw [get?_set, Function.update_apply]

theorem exists_get? {s : Scope} {name : String} (h : name ∈ s.names) : ∃ v, s.get? name = some v :=
  Option.isSome_iff_exists.mp <| (s.get?_isSome_iff name).mpr h

theorem mem_names_of_get? {s : Scope} {name : String} {v : Value} (h : s.get? name = some v) :
    name ∈ s.names :=
  (s.get?_isSome_iff name).mp <| Option.isSome_of_eq_some h

theorem equal_iff_agrees (s s' : Scope) : s.equal s' ↔ s.Agrees s' := by
  rw [equal_iff]
  constructor
  case mp =>
    intro ⟨hn, ha⟩
    have hs : s.names ⊆ s'.names := by
      intro name h
      have ⟨v, hv⟩ := exists_get? h
      have ⟨_, hv', _⟩ := ha name v hv
      exact mem_names_of_get? hv'
    -- The names of the first are distinct and are among as many of the second, so they are all.
    have hp := (List.subperm_of_subset s.distinct hs).perm_of_length_le hn.ge
    refine ⟨fun name => hp.mem_iff, fun name v v' hv hv' => ?_⟩
    have ⟨w, hw, he⟩ := ha name v hv
    cases hw.symm.trans hv'
    exact he
  case mpr =>
    intro h
    have hp := (List.perm_ext_iff_of_nodup s.distinct s'.distinct).mpr h.names
    refine ⟨hp.length_eq, fun name v hv => ?_⟩
    have ⟨v', hv'⟩ := exists_get? <| (h.names name).mp <| mem_names_of_get? hv
    exact ⟨v', hv', h.values name v v' hv hv'⟩

end Scope

inductive Operation
  | define (name : String) (value : Value)
  | assign (name : String) (value : Value)
  | enter
  | leave

namespace Operation

variable {ops ops' ops'' before after outs : List Operation} {name name' : String}
  {value value' : Value}

-- Operations up to those that leave some blocks. The names of the blocks so far are given, and what
-- the operations assign to other names is all that they do outside of the blocks.
def outward? : List (List String) → List Operation → Option (List Operation)
  | [],          []                       => some []
  | names :: ns, define name _ :: ops     => outward? ((name :: names) :: ns) ops
  | names :: ns, assign name value :: ops =>
    if ∃ names' ∈ names :: ns, name ∈ names' then outward? (names :: ns) ops
    else (outward? (names :: ns) ops).map (assign name value :: ·)
  | names :: ns, enter :: ops             => outward? ([] :: names :: ns) ops
  | _ :: ns,     leave :: ops             => outward? ns ops
  | _,           _                        => none

end Operation

namespace Environment

def perform? (env : Environment) : Operation → Option Environment
  | .define name value => some <| env.define name value
  | .assign name value => some <| (env.assign? name value).getD env
  | .enter             => some env.enter
  | .leave             => env.leave?

def performAll? (env : Environment) (ops : List Operation) : Option Environment :=
  ops.foldlM perform? env

end Environment

namespace Operation

-- Histories that differ in what is to leave no trace: the order of definitions, a value that was
-- replaced, an assignment that failed, and a block that has been left, but for what it assigned to
-- names from outside.
inductive SameEffect : List Operation → List Operation → Prop
  | refl (ops : List Operation) : SameEffect ops ops
  | symm (h : SameEffect ops ops') : SameEffect ops' ops
  | trans (h : SameEffect ops ops') (h' : SameEffect ops' ops'') : SameEffect ops ops''
  | order (h : name ≠ name') :
    SameEffect (before ++ [define name value, define name' value'] ++ after)
      (before ++ [define name' value', define name value] ++ after)
  | redefinition :
    SameEffect (before ++ [define name value, define name value'] ++ after)
      (before ++ [define name value'] ++ after)
  | reassignment :
    SameEffect (before ++ [define name value, assign name value'] ++ after)
      (before ++ [define name value'] ++ after)
  | failure {env : Environment} (h : ({} : Environment).performAll? before = some env)
    (ha : env.assign? name value = none) :
    SameEffect (before ++ [assign name value] ++ after) (before ++ after)
  | block (h : outward? [[]] ops = some outs) :
    SameEffect (before ++ enter :: ops ++ after) (before ++ outs ++ after)

end Operation

-- Environments that exist side by side, each of them with its history, which a copy has from what
-- it is a copy of. Any of them may be changed next, and the others stay what they are.
inductive Alive : List (List Operation × Environment) → Prop
  | none : Alive []
  | fresh {envs : List (List Operation × Environment)} (h : Alive envs) : Alive (([], {}) :: envs)
  | copied {envs : List (List Operation × Environment)} {e : List Operation × Environment}
    (h : Alive envs) (he : e ∈ envs) : Alive (e :: envs)
  | changed {before after : List (List Operation × Environment)} {history : List Operation}
    {env env' : Environment} {op : Operation} (h : Alive (before ++ (history, env) :: after))
    (hp : env.perform? op = some env') : Alive (before ++ (history ++ [op], env') :: after)

theorem Alive.performAll? {envs : List (List Operation × Environment)} (h : Alive envs) :
    ∀ e ∈ envs, ({} : Environment).performAll? e.1 = some e.2 := by
  induction h
  case none => exact fun _ he => (List.not_mem_nil he).elim
  case fresh hi =>
    intro e he
    cases he
    case head => rfl
    case tail he => exact hi e he
  case copied ho hi =>
    intro e he
    cases he
    case head => exact hi _ ho
    case tail he => exact hi e he
  case changed history env env' op _ hp hi =>
    intro e he
    rcases List.mem_append.mp he with he | he
    case inl => exact hi e <| List.mem_append_left _ he
    case inr =>
      cases he
      case head =>
        have hh : ({} : Environment).performAll? history = some env :=
          hi (history, env) <| List.mem_append_right _ List.mem_cons_self
        rw [Environment.performAll?] at hh ⊢
        simp only [List.foldlM_append, hh, List.foldlM_cons, List.foldlM_nil, hp,
          Option.bind_eq_bind, Option.bind_some, Option.pure_def]
      case tail he => exact hi e <| List.mem_append_right _ <| List.mem_cons_of_mem _ he

-- What the scopes of an environment contain, the innermost first. Equality is about these functions
-- alone, so an operation that leaves no trace in them leaves none at all.
abbrev Contents :=
  List (String → Option Value)

namespace Contents

open Operation (outward?)

variable {inner outer : Contents} {f : String → Option Value}
  {names : List String} {nss : List (List String)} {ops outs : List Operation} {name name' : String}

def define (name : String) (value : Value) : Contents → Contents
  | []      => []
  | f :: fs => Function.update f name (some value) :: fs

def assign (name : String) (value : Value) : Contents → Contents
  | []      => []
  | f :: fs =>
    if (f name).isSome then Function.update f name (some value) :: fs
    else f :: assign name value fs

def leave? : Contents → Option Contents
  | _ :: f :: fs => some (f :: fs)
  | _            => none

def perform? (c : Contents) : Operation → Option Contents
  | .define name value => some <| c.define name value
  | .assign name value => some <| c.assign name value
  | .enter             => some ((fun _ => none) :: c)
  | .leave             => c.leave?

def performAll? (c : Contents) (ops : List Operation) : Option Contents :=
  ops.foldlM perform? c

theorem performAll?_append (c : Contents) (ops ops' : List Operation) :
    c.performAll? (ops ++ ops') = (c.performAll? ops).bind (·.performAll? ops') :=
  List.foldlM_append ..

theorem performAll?_cons (c : Contents) (op : Operation) (ops : List Operation) :
    c.performAll? (op :: ops) = (c.perform? op).bind (·.performAll? ops) :=
  rfl

theorem define_define (c : Contents) (name : String) (value value' : Value) :
    (c.define name value).define name value' = c.define name value' := by
  cases c
  case nil => rfl
  case cons => simp only [define, Function.update_idem]

theorem assign_define (c : Contents) (name : String) (value value' : Value) :
    (c.define name value).assign name value' = c.define name value' := by
  cases c
  case nil => rfl
  case cons =>
    simp only [define, assign, Function.update_self, Option.isSome_some, if_true,
      Function.update_idem]

theorem define_comm (c : Contents) (h : name ≠ name') (value value' : Value) :
    (c.define name value).define name' value' = (c.define name' value').define name value := by
  cases c
  case nil => rfl
  case cons => simp only [define, Function.update_comm h]

def Has (f : String → Option Value) (names : List String) : Prop :=
  ∀ name, (f name).isSome ↔ name ∈ names

theorem Has.update (h : Has f names) (name : String) (value : Value) :
    Has (Function.update f name (some value)) (name :: names) := by
  intro n
  rw [Function.update_apply, List.mem_cons]
  split
  case isTrue hn => simp [hn]
  case isFalse hn => simp only [hn, false_or, h n]

theorem Has.update_mem (h : Has f names) (hn : name ∈ names) (value : Value) :
    Has (Function.update f name (some value)) names := by
  intro n
  rw [h.update name value n, List.mem_cons]
  exact ⟨fun he => he.elim (· ▸ hn) id, .inr⟩

def Agree (f f' : String → Option Value) : Prop :=
  ∀ name, ((f name).isSome ↔ (f' name).isSome) ∧
    ∀ v v', f name = some v → f' name = some v' → v.equal v'

theorem Agree.update {f' : String → Option Value} (h : Agree f f') (name : String) {v v' : Value}
    (hv : v.equal v') :
    Agree (Function.update f name (some v)) (Function.update f' name (some v')) := by
  intro n
  rw [Function.update_apply, Function.update_apply]
  split
  case isTrue =>
    refine ⟨Iff.rfl, fun w w' hw hw' => ?_⟩
    cases hw
    cases hw'
    exact hv
  case isFalse => exact h n

theorem assign_append (h : Forall₂ Has inner nss) (outer : Contents) (name : String)
    (value : Value) :
    if ∃ names ∈ nss, name ∈ names then
      ∃ inner', Forall₂ Has inner' nss ∧ assign name value (inner ++ outer) = inner' ++ outer
    else assign name value (inner ++ outer) = inner ++ assign name value outer := by
  induction h
  case nil => simp
  case cons f names inner nss hf hl hi =>
    by_cases hn : name ∈ names
    case pos =>
      rw [if_pos ⟨names, List.mem_cons_self, hn⟩]
      refine ⟨_, .cons (hf.update_mem hn value) hl, ?_⟩
      rw [List.cons_append, assign, if_pos <| (hf name).mpr hn, List.cons_append]
    case neg =>
      have ha : assign name value (f :: inner ++ outer) = f :: assign name value (inner ++ outer) :=
        if_neg <| mt (hf name).mp hn
      simp only [List.exists_mem_cons_iff, hn, false_or, ha]
      split at hi
      case isTrue he =>
        have ⟨inner', hl', hi⟩ := hi
        rw [if_pos he, hi]
        exact ⟨f :: inner', .cons hf hl', rfl⟩
      case isFalse he =>
        rw [if_neg he, hi]
        rfl

theorem performAll?_outward (h : outward? nss ops = some outs) (hi : Forall₂ Has inner nss)
    (ho : outer ≠ []) : performAll? (inner ++ outer) ops = performAll? outer outs := by
  fun_induction outward? nss ops generalizing inner outer outs
  case case1 =>
    cases hi
    cases h
    rfl
  case case2 names nss name value ops hr =>
    cases hi
    case cons hf hl => exact hr h (.cons (hf.update name value) hl) ho
  case case3 names nss name value ops hn hr =>
    have ha := assign_append hi outer name value
    rw [if_pos hn] at ha
    have ⟨inner', hi', ha⟩ := ha
    rw [performAll?_cons, perform?, Option.bind_some, ha]
    exact hr h hi' ho
  case case4 names nss name value ops hn hr =>
    have ha := assign_append hi outer name value
    rw [if_neg hn] at ha
    -- No inner scope has the name, so this is an assignment that the outer scopes see as well.
    have ⟨outs', hs, hc⟩ := Option.map_eq_some_iff.mp h
    subst hc
    have ho' : assign name value outer ≠ [] := by
      cases outer
      case nil => contradiction
      case cons =>
        rw [assign]
        split <;> simp
    rw [performAll?_cons, performAll?_cons, perform?, perform?, Option.bind_some, Option.bind_some,
      ha]
    exact hr hs hi ho'
  case case5 names nss ops hr =>
    exact hr h (.cons (fun _ => by simp) hi) ho
  case case6 names nss ops hr =>
    cases hi
    case cons inner hf hl =>
      have ⟨g, gs, hg⟩ := List.exists_cons_of_ne_nil <| List.append_ne_nil_of_right_ne_nil inner ho
      rw [List.cons_append, performAll?_cons, perform?, hg, leave?, ← hg, Option.bind_some]
      exact hr h hl ho
  case case7 => contradiction

end Contents

theorem Scope.agrees_iff (s s' : Scope) : s.Agrees s' ↔ Contents.Agree s.get? s'.get? := by
  constructor
  case mp =>
    intro h name
    rw [get?_isSome_iff, get?_isSome_iff]
    exact ⟨h.names name, h.values name⟩
  case mpr =>
    intro h
    refine ⟨fun name => ?_, fun name => (h name).right⟩
    rw [← get?_isSome_iff, ← get?_isSome_iff]
    exact (h name).left

namespace Environment

variable {env env' : Environment}

def contents (env : Environment) : Contents :=
  env.scopes.map Scope.get?

theorem contents_define (env : Environment) (name : String) (value : Value) :
    (env.define name value).contents = env.contents.define name value := by
  have ⟨s, ss, hs, hd⟩ := env.exists_scopes_define name value
  rw [contents, contents, hs, hd, List.map_cons, List.map_cons,
    Scope.get?_set_eq_update, Contents.define]

theorem assign_map_append (name : String) (value : Value) (ss : List Scope) (c : Contents) :
    Contents.assign name value (ss.map Scope.get? ++ c) =
      (setInnermost? name value ss).elim (ss.map Scope.get? ++ c.assign name value)
        (·.map Scope.get? ++ c) := by
  induction ss
  case nil => rfl
  case cons s ss hi =>
    rw [List.map_cons, List.cons_append, Contents.assign, setInnermost?]
    split
    case isTrue => rw [Option.elim_some, List.map_cons, Scope.get?_set_eq_update, List.cons_append]
    case isFalse =>
      rw [hi]
      cases setInnermost? name value ss <;> rfl

theorem contents_assign (env : Environment) (name : String) (value : Value) :
    ((env.assign? name value).getD env).contents = env.contents.assign name value := by
  rw [contents, contents, scopes, scopes, List.map_append, List.map_append, assign_map_append,
    assign?]
  cases setInnermost? name value env.locals
  case some => rfl
  case none =>
    simp only [Option.elim_none, List.map_cons, List.map_nil, Contents.assign]
    split
    case isTrue => rw [Option.getD_some, Scope.get?_set_eq_update]
    case isFalse => rfl

theorem contents_leave? (env : Environment) : env.leave?.map contents = env.contents.leave? := by
  have ⟨globals, locals⟩ := env
  rcases locals with _ | ⟨s, _ | ⟨_, _⟩⟩ <;> rfl

theorem contents_perform? (env : Environment) (op : Operation) :
    (env.perform? op).map contents = env.contents.perform? op := by
  cases op
  case define => exact congrArg some <| contents_define ..
  case assign => exact congrArg some <| contents_assign ..
  case enter => rfl
  case leave => exact contents_leave? env

theorem contents_performAll? (env : Environment) (ops : List Operation) :
    (env.performAll? ops).map contents = env.contents.performAll? ops := by
  induction ops generalizing env
  case nil => rfl
  case cons op ops hi =>
    rw [Contents.performAll?_cons, ← contents_perform?, performAll?, List.foldlM_cons]
    cases env.perform? op
    case none => rfl
    case some env' => exact hi env'

end Environment

namespace Operation

variable {before ops ops' : List Operation}

theorem performAll?_replace (after : List Operation)
    (h : ∀ env, ({} : Environment).performAll? before = some env →
      env.contents.performAll? ops = env.contents.performAll? ops') :
    ({} : Environment).contents.performAll? (before ++ ops ++ after) =
      ({} : Environment).contents.performAll? (before ++ ops' ++ after) := by
  simp only [Contents.performAll?_append, ← Environment.contents_performAll?]
  cases hb : ({} : Environment).performAll? before
  case none => rfl
  case some env => simp only [Option.map_some, Option.bind_some, h env hb]

theorem SameEffect.performAll?_eq (h : SameEffect ops ops') :
    ({} : Environment).contents.performAll? ops = ({} : Environment).contents.performAll? ops' := by
  induction h
  case refl => rfl
  case symm hi => exact hi.symm
  case trans hi hi' => exact hi.trans hi'
  case order hn =>
    exact performAll?_replace _ fun env _ => congrArg some <| env.contents.define_comm hn ..
  case redefinition =>
    exact performAll?_replace _ fun env _ => congrArg some <| env.contents.define_define ..
  case reassignment =>
    exact performAll?_replace _ fun env _ => congrArg some <| env.contents.assign_define ..
  case failure before name value after env h ha =>
    have hr : ∀ env', ({} : Environment).performAll? before = some env' →
        env'.contents.performAll? [.assign name value] = env'.contents.performAll? [] := by
      intro env' h'
      cases h.symm.trans h'
      have hc := env.contents_assign name value
      rw [ha, Option.getD_none] at hc
      exact congrArg some hc.symm
    have hr := performAll?_replace after hr
    rwa [List.append_nil] at hr
  case block ops outs before after h =>
    refine performAll?_replace _ fun env _ => ?_
    have hc : env.contents ≠ [] := by
      rw [Environment.contents, Environment.scopes]
      simp
    have hn : Contents.Has (fun _ => none) [] := fun _ => by simp
    exact Contents.performAll?_outward h (.cons hn .nil) hc

end Operation

namespace Environment

variable {envs : List (List Operation × Environment)} {history history' : List Operation}
  {env env' : Environment}

theorem equalScopes_iff (ss ss' : List Scope) :
    equalScopes ss ss' ↔ Forall₂ Scope.Agrees ss ss' := by
  fun_induction equalScopes ss ss'
  case case1 => exact iff_of_true rfl .nil
  case case2 hi => rw [Bool.and_eq_true, Scope.equal_iff_agrees, hi, List.forall₂_cons]
  case case3 ss ss' h₁ h₂ =>
    refine iff_of_false Bool.false_ne_true fun h => ?_
    cases h
    case nil => exact h₁ rfl rfl
    case cons => exact h₂ _ _ _ _ rfl rfl

theorem equal_iff_forall₂ (env env' : Environment) :
    env.equal env' ↔ Forall₂ Scope.Agrees env.scopes env'.scopes := by
  rw [equal, Bool.and_eq_true, Scope.equal_iff_agrees, equalScopes_iff]
  rw [← @List.forall₂_reverse_iff _ _ _ env.scopes, scopes, scopes, List.reverse_concat,
    List.reverse_concat, List.forall₂_cons, List.forall₂_reverse_iff]

theorem equal_iff_depth (env env' : Environment) : env.equal env' ↔ env.depth = env'.depth ∧
    ∀ (i : Nat) s s', env.scopes[i]? = some s → env'.scopes[i]? = some s' → Scope.Agrees s s' := by
  rw [equal_iff_forall₂, List.forall₂_iff_get, ← length_scopes, ← length_scopes]
  refine and_congr_right fun _ => ⟨fun h i s s' hs hs' => ?mp, fun h i hi hi' => ?mpr⟩
  case mp =>
    have ⟨hi, he⟩ := List.getElem?_eq_some_iff.mp hs
    have ⟨hi', he'⟩ := List.getElem?_eq_some_iff.mp hs'
    exact he ▸ he' ▸ h i hi hi'
  case mpr => exact h i _ _ (List.getElem?_eq_getElem hi) (List.getElem?_eq_getElem hi')

theorem equal_iff_contents (env env' : Environment) :
    env.equal env' ↔ Forall₂ Contents.Agree env.contents env'.contents := by
  have ha : Scope.Agrees = fun s s' => Contents.Agree s.get? s'.get? :=
    funext₂ fun s s' => propext <| s.agrees_iff s'
  rw [equal_iff_forall₂, contents, contents, List.forall₂_map_left_iff, List.forall₂_map_right_iff,
    ha]

theorem equal_congr (h : env.contents = env'.contents) (other : Environment) :
    env.equal other = env'.equal other ∧ other.equal env = other.equal env' := by
  constructor
  case left => rw [Bool.eq_iff_iff, equal_iff_contents, equal_iff_contents, h]
  case right => rw [Bool.eq_iff_iff, equal_iff_contents, equal_iff_contents, h]

theorem equal_self_iff (env : Environment) : env.equal env ↔
    ∀ s ∈ env.scopes, ∀ name x, s.get? name = some (.number x) → x.isNaN = false := by
  rw [equal_iff_forall₂, List.forall₂_same]
  refine forall₂_congr fun s _ => ⟨fun h name x hx => ?mp, fun h => ⟨fun _ => Iff.rfl, ?mpr⟩⟩
  case mp => exact (Value.equal_self_iff _).mp (h.values name _ _ hx hx) x rfl
  case mpr =>
    intro name v v' hv hv'
    cases hv.symm.trans hv'
    exact v.equal_self_iff.mpr fun x hx => h name x <| hx ▸ hv

theorem equal_define (h : env.equal env') (name : String) {v v' : Value} (hv : v.equal v') :
    (env.define name v).equal (env'.define name v') := by
  rw [equal_iff_contents, contents_define, contents_define]
  rw [equal_iff_contents] at h
  generalize env.contents = c at h ⊢
  generalize env'.contents = c' at h ⊢
  cases h
  case nil => exact .nil
  case cons hf hl => exact .cons (hf.update name hv) hl

-- Environments with any histories are equal just if they have the same depth and, in each place,
-- the same names with equal values. So one that has NaN is not equal to a copy of itself, zero may
-- stand for its opposite, and how a history came to its effect makes no difference.
theorem equal_is_extensional (h : Alive envs) (he : (history, env) ∈ envs)
    (he' : (history', env') ∈ envs) :
    (env.equal env' ↔ env.depth = env'.depth ∧
      ∀ (i : Nat) s s', env.scopes[i]? = some s → env'.scopes[i]? = some s' → Scope.Agrees s s') ∧
    (env.equal env ↔
      ∀ s ∈ env.scopes, ∀ name x, s.get? name = some (.number x) → x.isNaN = false) ∧
    (env.equal env' →
      ∀ name, (env.define name (.number 0)).equal (env'.define name (.number (-0)))) ∧
    (Operation.SameEffect history history' →
      ∀ other, env.equal other = env'.equal other ∧ other.equal env = other.equal env') := by
  refine ⟨env.equal_iff_depth env', env.equal_self_iff,
    fun hq name => equal_define hq name Value.equal_zeros, fun hs => equal_congr ?_⟩
  have hc := hs.performAll?_eq
  rw [← contents_performAll?, ← contents_performAll?, h.performAll? _ he, h.performAll? _ he'] at hc
  exact Option.some.inj hc

theorem equal_is_extensional_of_nan :
    let env := ({} : Environment).define "a" (.number Float.nan)
    let history := [Operation.define "a" (.number Float.nan)]
    Alive [(history, env), (history, env)] ∧ env.equal env = false := by
  intro env history
  have h : Alive [(history, env)] := @Alive.changed [] _ _ _ _ _ (.fresh .none) rfl
  have h : Alive [(history, env), (history, env)] := .copied h List.mem_cons_self
  have ⟨_, hs, _, _⟩ :=
    equal_is_extensional h List.mem_cons_self (List.mem_cons_of_mem _ List.mem_cons_self)
  refine ⟨h, Bool.eq_false_iff.mpr fun he => ?_⟩
  have hn := hs.mp he _ List.mem_cons_self "a" Float.nan rfl
  rw [Float.isNaN_eq_decide_eq_nan, decide_eq_true rfl] at hn
  contradiction

end Environment
end Lox
