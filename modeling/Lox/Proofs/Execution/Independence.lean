import Mathlib.Data.Set.Basic
import Lox.Proofs.Execution.Simulation
import Lox.Proofs.Syntax.Grammar

namespace Lox

def Expr.NamesIn (names : Set String) : Expr → Prop
  | literal _            => True
  | .variable name       => name.content ∈ names
  | grouping inner       => inner.NamesIn names
  | unary _ operand      => operand.NamesIn names
  | binary left _ right  => left.NamesIn names ∧ right.NamesIn names
  | logical left _ right => left.NamesIn names ∧ right.NamesIn names
  | assign name value    => name.content ∈ names ∧ value.NamesIn names

variable {names : Set String}

namespace Terminal

def NamesIn (names : Set String) (ts : List Terminal) : Prop :=
  ∀ l : Lexeme, l.IsName → .held l ∈ ts → l.content ∈ names

variable {l : Lexeme} {t : Token} {ts ts' : List Terminal}

theorem namesIn_nil : NamesIn names [] :=
  fun _ _ => nofun

theorem namesIn_held : NamesIn names (.held l :: ts) ↔
    (l.IsName → l.content ∈ names) ∧ NamesIn names ts := by
  constructor
  case mp =>
    exact fun h => ⟨fun hl => h l hl <| by simp, fun l' hl hm => h l' hl <| by simp [hm]⟩
  case mpr =>
    intro ⟨h, hs⟩ l' hl hm
    cases hm
    case head => exact h hl
    case tail hm => exact hs l' hl hm

theorem namesIn_free : NamesIn names (.free t :: ts) ↔ NamesIn names ts := by
  simp [NamesIn]

theorem namesIn_append : NamesIn names (ts ++ ts') ↔ NamesIn names ts ∧ NamesIn names ts' := by
  simp only [NamesIn, List.mem_append, or_imp, forall_and]

end Terminal

open Terminal (namesIn_nil namesIn_held namesIn_free namesIn_append)

theorem Expr.Derives.namesIn {e : Expr} {c : Category} (h : e.Derives c)
    (hn : Terminal.NamesIn names e.yield) : e.NamesIn names := by
  induction h
  case literal => trivial
  case loose hi | tight hi | single hi => exact hi hn
  all_goals simp only [yield, List.cons_append, namesIn_append, namesIn_free, namesIn_held,
    namesIn_nil, and_true] at hn
  case named hl => exact hn hl
  case grouping hi => exact hi hn
  case unary hi => exact hi hn.right
  case assign hl _ hi => exact ⟨hn.left hl, hi hn.right⟩
  case logical hi hi' | binary hi hi' => exact ⟨hi hn.left, hi' hn.right.right⟩

namespace Stmt

theorem namesIn_of_mem {stmts : List Stmt} {stmt : Stmt} (h : stmt ∈ stmts)
    (hn : Terminal.NamesIn names (yields stmts)) : Terminal.NamesIn names stmt.yield := by
  obtain ⟨before, after, rfl⟩ := List.append_of_mem h
  simp only [yields_append, yields, namesIn_append] at hn
  exact hn.right.left

end Stmt

structure Sink.Twins (first first' s s' : Sink) : Prop where
  room  : s'.room = s.room
  taken : ∃ bytes, s.taken.toList = first.taken.toList ++ bytes ∧
    s'.taken.toList = first'.taken.toList ++ bytes

namespace Sink.Twins

variable {first first' s s' : Sink}

theorem refl (h : s'.room = s.room) : Twins s s' s s' where
  room  := h
  taken := ⟨[], by simp⟩

theorem write (h : Twins first first' s s') {text : String} {fits : Bool} {after : Sink}
    (hw : s.write text = (fits, after)) :
    ∃ after', s'.write text = (fits, after') ∧ Twins first first' after after' := by
  have ⟨taken, room⟩ := s
  have ⟨taken', room'⟩ := s'
  have ⟨hr, bytes, ht, ht'⟩ := h
  cases hr
  cases room <;> obtain ⟨rfl, rfl⟩ := Prod.mk.inj hw
  case none => exact ⟨_, rfl, rfl, bytes ++ Utf8.encode text.toList, by simp_all⟩
  case some n => exact ⟨_, rfl, rfl, bytes ++ (Utf8.encode text.toList).take n, by simp_all⟩

end Sink.Twins

namespace Environment

-- What has become of two environments that differ outside a set of names at most, while only names
-- in the set were used: they still differ there alone, and neither has changed there.
structure Twins (names : Set String) (first first' env env' : Environment) : Prop where
  locals   : env'.locals = env.locals
  inside   : ∀ name ∈ names, env'.globals.get? name = env.globals.get? name
  outside  : ∀ name ∉ names, env.globals.get? name = first.globals.get? name
  outside' : ∀ name ∉ names, env'.globals.get? name = first'.globals.get? name

namespace Twins

variable {first first' env env' : Environment} {name : String}

theorem get?_eq (h : Twins names first first' env env') (hn : name ∈ names) :
    env'.get? name = env.get? name := by
  simp only [get?, h.locals, h.inside name hn]

theorem setLocals (h : Twins names first first' env env') (locals : List Scope) :
    Twins names first first' ⟨env.globals, locals⟩ ⟨env'.globals, locals⟩ where
  locals   := rfl
  inside   := h.inside
  outside  := h.outside
  outside' := h.outside'

theorem setGlobal (h : Twins names first first' env env') (hn : name ∈ names) (value : Value)
    (locals : List Scope) :
    Twins names first first' ⟨env.globals.set name value, locals⟩
      ⟨env'.globals.set name value, locals⟩ := by
  have he {n : String} (ho : n ∉ names) : n ≠ name := fun he => ho (he ▸ hn)
  refine ⟨rfl, fun n hn' => ?_, fun n ho => ?_, fun n ho => ?_⟩
  case refine_1 => simp only [Scope.get?_set, h.inside n hn']
  case refine_2 => simp only [Scope.get?_set, if_neg (he ho), h.outside n ho]
  case refine_3 => simp only [Scope.get?_set, if_neg (he ho), h.outside' n ho]

theorem define (h : Twins names first first' env env') (hn : name ∈ names) (value : Value) :
    Twins names first first' (env.define name value) (env'.define name value) := by
  simp only [Environment.define, h.locals]
  split
  case h_1 => exact h.setGlobal hn value _
  case h_2 => exact h.setLocals _

theorem assign? (h : Twins names first first' env env') (hn : name ∈ names) (value : Value) :
    Option.Rel (Twins names first first') (env.assign? name value) (env'.assign? name value) := by
  simp only [Environment.assign?, h.locals, h.inside name hn]
  split
  case h_1 => exact .some <| h.setLocals _
  case h_2 =>
    split
    case isTrue => exact .some <| h.setGlobal hn value _
    case isFalse => exact .none

theorem enter (h : Twins names first first' env env') :
    Twins names first first' env.enter env'.enter := by
  simp only [Environment.enter, h.locals]
  exact h.setLocals _

theorem leave? (h : Twins names first first' env env') :
    Option.Rel (Twins names first first') env.leave? env'.leave? := by
  simp only [Environment.leave?, h.locals]
  split
  case h_1 => exact .none
  case h_2 => exact .some <| h.setLocals _

end Twins
end Environment

theorem Expr.NamesIn.like {e : Expr} (he : e.NamesIn names) :
    e.Like (fun n n' => n' = n ∧ n.content ∈ names) Eq e := by
  induction e
  case literal => exact .literal
  case «variable» => exact .variable ⟨rfl, he⟩
  case grouping hi => exact .grouping (hi he)
  case unary hi => exact .unary rfl (hi he)
  case binary hl hr => exact .binary (hl he.left) rfl (hr he.right)
  case logical hl hr => exact .logical (hl he.left) rfl (hr he.right)
  case assign hi => exact .assign ⟨rfl, he.left⟩ (hi he.right)

theorem mapError_id {ε α : Type} (result : Except ε α) : result.mapError id = result := by
  cases result <;> rfl

-- Environments in which names look the same, also when they have been assigned to, make no
-- difference to an expression of these names. The two laws about names are all that is left to
-- show.
def Correspondence.ofNames (names : Set String) (related : Environment → Environment → Prop)
    (hg : ∀ {env env' name}, related env env' → name ∈ names → env'.get? name = env.get? name)
    (ha : ∀ {env env' name}, related env env' → name ∈ names → ∀ value,
      Option.Rel related (env.assign? name value) (env'.assign? name value)) : Correspondence where
  names n n' := n' = n ∧ n.content ∈ names
  operators  := Eq
  envs       := related
  fault      := id
  get? hn h  := by
    rw [hn.left]
    exact hg h hn.right
  assign? hn h value := hn.left ▸ ha h hn.right value
  undefined hn := hn.left ▸ rfl
  applyUnary ho v := ho ▸ (mapError_id _).symm
  applyBinary ho v v' := ho ▸ (mapError_id _).symm
  decides ho v := ho ▸ (mapError_id _).symm

structure Machine.Twins (names : Set String) (first first' m m' : Machine) : Prop where
  env    : Environment.Twins names first.env first'.env m.env m'.env
  output : Sink.Twins first.output first'.output m.output m'.output

inductive Run.Twins (names : Set String) (first first' : Machine) : Run → Run → Prop
  | done (h : Machine.Twins names first first' m m') : Twins names first first' (.done m) (.done m')
  | stopped (h : Machine.Twins names first first' m m') :
    Twins names first first' (.stopped why m) (.stopped why m')
  | unfinished : Twins names first first' .unfinished .unfinished

variable {first first' m m' : Machine} {r r' : Run}

theorem Run.Twins.andThen {next next' : Machine → Run} (h : Run.Twins names first first' r r')
    (hn : ∀ {m m'}, Machine.Twins names first first' m m' →
      Run.Twins names first first' (next m) (next' m')) :
    Run.Twins names first first' (r.andThen next) (r'.andThen next') := by
  cases h
  case done h => exact hn h
  case stopped h => exact .stopped h
  case unfinished => exact .unfinished

theorem Run.Twins.exists_done (h : Run.Twins names first first' r r') (hr : r = .done m) :
    ∃ m', r' = .done m' ∧ Machine.Twins names first first' m m' := by
  cases h <;> cases hr
  exact ⟨_, rfl, ‹_›⟩

theorem Run.Twins.exists_stopped {why : Stop} (h : Run.Twins names first first' r r')
    (hr : r = .stopped why m) :
    ∃ m', r' = .stopped why m' ∧ Machine.Twins names first first' m m' := by
  cases h <;> cases hr
  exact ⟨_, rfl, ‹_›⟩

theorem Run.Twins.leave (h : Run.Twins names first first' r r') :
    Run.Twins names first first' r.leave r'.leave := by
  cases h
  case unfinished => exact .unfinished
  case done m m' h | stopped m m' _ h =>
    have hl := h.env.leave?
    simp only [Run.leave]
    generalize m.env.leave? = left, m'.env.leave? = left' at hl
    cases hl
    case none => exact .stopped h
    case some hl =>
      constructor
      exact ⟨hl, h.output⟩

namespace Machine.Twins

theorem eval (h : Machine.Twins names first first' m m') {e : Expr} (he : e.NamesIn names) :
    Evaluations (Machine.Twins names first first') (Run.Twins names first first')
      (m.eval e) (m'.eval e) :=
  (Correspondence.ofNames names _ Environment.Twins.get?_eq Environment.Twins.assign?).evaluations
    he.like h.env (fun he => ⟨he, h.output⟩) .stopped

theorem writeValue (h : Machine.Twins names first first' m m') (value : Value) :
    Run.Twins names first first' (m.writeValue value) (m'.writeValue value) := by
  rcases hw : m.output.write (value.text ++ "\n") with ⟨fits, output⟩
  have ⟨output', hw', ho⟩ := h.output.write hw
  simp only [Machine.writeValue, Sink.writeLine, hw, hw']
  cases fits
  case false => exact .stopped ⟨h.env, ho⟩
  case true => exact .done ⟨h.env, ho⟩

end Machine.Twins

def Simulation.independent (names : Set String) (first first' : Machine) : Simulation where
  exprs e e'   := e' = e ∧ e.NamesIn names
  names n n'   := n' = n ∧ n.content ∈ names
  machines     := Machine.Twins names first first'
  runs         := Run.Twins names first first'
  done         := .done
  unfinished   := .unfinished
  andThen h _  := h.andThen
  eval he h    := by
    rw [he.left]
    exact h.eval he.right
  writeValue h := h.writeValue
  define hn h value := ⟨hn.left ▸ h.env.define hn.right value, h.output⟩
  enter h      := ⟨h.env.enter, h.output⟩
  leave h _ _  := h.leave

namespace Stmt

theorem WellFormed.like_of_names {stmt : Stmt} (h : stmt.WellFormed)
    (hn : Terminal.NamesIn names stmt.yield) :
    stmt.Like (fun e e' => e' = e ∧ e.NamesIn names) (fun n n' => n' = n ∧ n.content ∈ names)
      stmt := by
  induction h
  case declare name initial hl hi =>
    cases initial <;> simp only [yield, List.cons_append, namesIn_append, namesIn_free,
      namesIn_held, namesIn_nil, and_true] at hn
    case none => exact .declare ⟨rfl, hn hl⟩
    case some e => exact .define ⟨rfl, hn.left hl⟩ ⟨rfl, (hi e rfl).namesIn hn.right⟩
  all_goals simp only [yield, List.cons_append, namesIn_append, namesIn_free, namesIn_nil, and_true]
    at hn
  case print hv => exact .print ⟨rfl, hv.namesIn hn⟩
  case expression hv => exact .expression ⟨rfl, hv.namesIn hn⟩
  case block hi =>
    exact .block <| List.forall₂_same.mpr fun stmt hs => hi stmt hs <| namesIn_of_mem hs hn
  case ifThen hc _ _ hi => exact .ifThen ⟨rfl, hc.namesIn hn.left⟩ (hi hn.right)
  case ifElse hc _ _ _ _ _ hi hi' =>
    exact .ifElse ⟨rfl, hc.namesIn hn.left⟩ (hi hn.right.left) (hi' hn.right.right)
  case loop hc _ _ hi => exact .loop ⟨rfl, hc.namesIn hn.left⟩ (hi hn.right)

theorem interpret_twins (fuel : Nat) {program : List Stmt} (hw : ∀ stmt ∈ program, stmt.WellFormed)
    (hn : Terminal.NamesIn names (yields program)) (h : Machine.Twins names first first' m m') :
    Run.Twins names first first' (interpret fuel program m) (interpret fuel program m') := by
  have hp : List.Forall₂ (Like (fun e e' => e' = e ∧ e.NamesIn names)
      (fun n n' => n' = n ∧ n.content ∈ names)) program program :=
    List.forall₂_same.mpr fun stmt hs => (hw stmt hs).like_of_names <| namesIn_of_mem hs hn
  exact (Simulation.independent names first first').interpret fuel hp h

end Stmt

end Lox
