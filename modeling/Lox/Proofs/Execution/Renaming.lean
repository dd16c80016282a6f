import Mathlib.Data.List.Nodup
import Mathlib.Logic.Equiv.Basic
import Lox.Proofs.Execution.Simulation
import Lox.Session.Message

namespace Lox

open List (Forall₂)

variable {ρ : String → String}

def Token.rename (ρ : String → String) : Token → Token
  | identifier name => identifier (ρ name)
  | token           => token

theorem Token.rename_eq_eof_iff {t : Token} : t.rename ρ = .eof ↔ t = .eof := by
  cases t <;> simp [rename]

def Lexeme.rename (ρ : String → String) (l : Lexeme) : Lexeme where
  token   := l.token.rename ρ
  content := ρ l.content
  line    := l.line

def Expr.rename (ρ : String → String) : Expr → Expr :=
  mapParts (Lexeme.rename ρ) id

def Stmt.rename (ρ : String → String) : Stmt → Stmt :=
  mapParts (Expr.rename ρ) (Lexeme.rename ρ)

def RuntimeError.rename (ρ : String → String) (e : RuntimeError) : RuntimeError where
  kind   := e.kind
  lexeme := if e.kind = .undefinedVariable then e.lexeme.rename ρ else e.lexeme

def Fault.rename (ρ : String → String) : Fault → Fault
  | error e         => error (e.rename ρ)
  | misfit operator => misfit operator

def Stop.rename (ρ : String → String) : Stop → Stop
  | fault f    => fault (f.rename ρ)
  | sinkFull   => sinkFull
  | unbalanced => unbalanced

def Location.rename (ρ : String → String) : Location → Location
  | atText text => atText (ρ text)
  | location    => location

theorem Location.of_rename (l : Lexeme) : of (l.rename ρ) = (of l).rename ρ := by
  simp only [of, Lexeme.rename, Token.rename_eq_eof_iff]
  split <;> rfl

theorem RuntimeError.message_rename (e : RuntimeError) :
    (e.rename ρ).message = if e.kind = .undefinedVariable then
      ⟨e.message.line, e.message.location.rename ρ,
        "Undefined variable '" ++ ρ e.lexeme.content ++ "'."⟩ else e.message := by
  have ⟨kind, lexeme⟩ := e
  by_cases hk : kind = .undefinedVariable
  case pos =>
    simp only [message, rename, text, hk, if_true, Location.of_rename]
    rfl
  case neg => simp only [message, rename, text, if_neg hk]

namespace Scope

-- The same values under other names. Scopes are compared by what is found in them, since their
-- entries need not be in the same order for that.
def Renamed (ρ : String → String) (s s' : Scope) : Prop :=
  ∀ name' value, s'.get? name' = some value ↔ ∃ name, ρ name = name' ∧ s.get? name = some value

variable {s s' : Scope}

theorem renamed_empty : empty.Renamed ρ empty :=
  fun _ _ => ⟨nofun, fun ⟨_, _, h⟩ => nomatch h⟩

theorem Renamed.get?_eq (h : s.Renamed ρ s') (hρ : ρ.Injective) (name : String) :
    s'.get? (ρ name) = s.get? name := by
  refine Option.ext fun value => (h (ρ name) value).trans ⟨?_, fun hv => ⟨name, rfl, hv⟩⟩
  rintro ⟨n, hn, hv⟩
  exact hρ hn ▸ hv

theorem Renamed.set (h : s.Renamed ρ s') (hρ : ρ.Injective) (name : String) (value : Value) :
    (s.set name value).Renamed ρ (s'.set (ρ name) value) := by
  intro name' value'
  simp only [get?_set]
  by_cases hn : name' = ρ name
  case pos =>
    subst hn
    simp only [if_true]
    constructor
    case mp => exact fun hv => ⟨name, rfl, by rwa [if_pos rfl]⟩
    case mpr =>
      rintro ⟨n, hn, hv⟩
      rwa [if_pos (hρ hn)] at hv
  case neg =>
    rw [if_neg hn, h name' value']
    refine exists_congr fun n => and_congr_right fun hn' => ?_
    rw [if_neg fun he => hn (he ▸ hn').symm]

def rename (hρ : ρ.Injective) (s : Scope) : Scope where
  entries  := s.entries.map (Prod.map ρ id)
  distinct := by
    have h := List.Nodup.map hρ s.distinct
    rwa [List.map_map] at h ⊢

theorem find?_map_eq_some_iff (hρ : ρ.Injective) (es : List (String × Value)) (name' : String)
    (value : Value) : find? name' (es.map (Prod.map ρ id)) = some value ↔
      ∃ name, ρ name = name' ∧ find? name es = some value := by
  induction es
  case nil => simp [find?]
  case cons e es hi =>
    simp only [List.map_cons, Prod.map, id, find?]
    by_cases hn : ρ e.1 = name'
    case pos =>
      simp only [hn, if_true]
      constructor
      case mp => exact fun hv => ⟨e.1, hn, by rwa [if_pos rfl]⟩
      case mpr =>
        rintro ⟨n, hn', hv⟩
        rwa [if_pos (hρ <| hn.trans hn'.symm)] at hv
    case neg =>
      rw [if_neg hn, hi]
      refine exists_congr fun n => and_congr_right fun hn' => ?_
      rw [if_neg fun (he : e.1 = n) => hn (he ▸ hn')]

theorem renamed_rename (hρ : ρ.Injective) (s : Scope) : s.Renamed ρ (s.rename hρ) :=
  find?_map_eq_some_iff hρ s.entries

section Locals

variable {ss ss' : List Scope}

theorem findSome?_renamed (h : Forall₂ (Renamed ρ) ss ss') (hρ : ρ.Injective) (name : String) :
    ss'.findSome? (·.get? (ρ name)) = ss.findSome? (·.get? name) := by
  induction h
  case nil => rfl
  case cons hs _ hi => simp only [List.findSome?_cons, hs.get?_eq hρ, hi]

theorem setInnermost?_renamed (h : Forall₂ (Renamed ρ) ss ss') (hρ : ρ.Injective) (name : String)
    (value : Value) :
    Option.Rel (Forall₂ (Renamed ρ)) (Environment.setInnermost? name value ss)
      (Environment.setInnermost? (ρ name) value ss') := by
  induction h
  case nil => exact .none
  case cons s s' ss ss' hs hl hi =>
    simp only [Environment.setInnermost?, hs.get?_eq hρ]
    split
    case isTrue => exact .some <| .cons (hs.set hρ name value) hl
    case isFalse =>
      generalize Environment.setInnermost? name value ss = set,
        Environment.setInnermost? (ρ name) value ss' = set' at hi
      cases hi
      case none => exact .none
      case some hl => exact .some <| .cons hs hl

end Locals
end Scope

namespace Environment

structure Renamed (ρ : String → String) (env env' : Environment) : Prop where
  globals : env.globals.Renamed ρ env'.globals
  locals  : Forall₂ (Scope.Renamed ρ) env.locals env'.locals

def rename (hρ : ρ.Injective) (env : Environment) : Environment where
  globals := env.globals.rename hρ
  locals  := env.locals.map (Scope.rename hρ)

theorem renamed_rename (hρ : ρ.Injective) (env : Environment) : env.Renamed ρ (env.rename hρ) where
  globals := env.globals.renamed_rename hρ
  locals  := List.forall₂_map_right_iff.mpr <| List.forall₂_same.mpr fun s _ => s.renamed_rename hρ

namespace Renamed

variable {env env' : Environment}

theorem get?_eq (h : env.Renamed ρ env') (hρ : ρ.Injective) (name : String) :
    env'.get? (ρ name) = env.get? name := by
  simp only [get?, Scope.findSome?_renamed h.locals hρ, h.globals.get?_eq hρ]

theorem define (h : env.Renamed ρ env') (hρ : ρ.Injective) (name : String) (value : Value) :
    (env.define name value).Renamed ρ (env'.define (ρ name) value) := by
  have ⟨globals, locals⟩ := env
  have ⟨globals', locals'⟩ := env'
  cases h.locals
  case nil => exact ⟨h.globals.set hρ name value, .nil⟩
  case cons hs hl => exact ⟨h.globals, .cons (hs.set hρ name value) hl⟩

theorem assign? (h : env.Renamed ρ env') (hρ : ρ.Injective) (name : String) (value : Value) :
    Option.Rel (Renamed ρ) (env.assign? name value) (env'.assign? (ρ name) value) := by
  have hs := Scope.setInnermost?_renamed h.locals hρ name value
  simp only [Environment.assign?, h.globals.get?_eq hρ]
  generalize setInnermost? name value env.locals = set,
    setInnermost? (ρ name) value env'.locals = set' at hs
  cases hs
  case some hs => exact .some ⟨h.globals, hs⟩
  case none =>
    dsimp only
    split
    case isTrue => exact .some ⟨h.globals.set hρ name value, h.locals⟩
    case isFalse => exact .none

theorem enter (h : env.Renamed ρ env') : env.enter.Renamed ρ env'.enter where
  globals := h.globals
  locals  := .cons Scope.renamed_empty h.locals

theorem leave? (h : env.Renamed ρ env') : Option.Rel (Renamed ρ) env.leave? env'.leave? := by
  have ⟨globals, locals⟩ := env
  have ⟨globals', locals'⟩ := env'
  cases h.locals
  case nil => exact .none
  case cons hl => exact .some ⟨h.globals, hl⟩

end Renamed
end Environment

namespace Lexeme

variable (operator : Lexeme)

theorem applyUnary_rename (v : Value) :
    operator.applyUnary v = (operator.applyUnary v).mapError (Fault.rename ρ) := by
  unfold applyUnary
  split
  case h_1 => split <;> rfl
  all_goals rfl

theorem applyBinary_rename (v v' : Value) :
    operator.applyBinary v v' = (operator.applyBinary v v').mapError (Fault.rename ρ) := by
  unfold applyBinary add onNumbers
  split
  all_goals first | (split <;> rfl) | rfl

theorem decides_rename (v : Value) :
    operator.decides v = (operator.decides v).mapError (Fault.rename ρ) := by
  unfold decides
  split <;> rfl

end Lexeme

def Correspondence.renamed (hρ : ρ.Injective) : Correspondence where
  names n n'     := n' = n.rename ρ
  operators o o' := o' = o
  envs           := Environment.Renamed ρ
  fault          := Fault.rename ρ
  get? hn h  := hn ▸ h.get?_eq hρ _
  assign? hn h value := hn ▸ h.assign? hρ _ value
  undefined hn := hn ▸ rfl
  applyUnary ho v := ho ▸ Lexeme.applyUnary_rename _ v
  applyBinary ho v v' := ho ▸ Lexeme.applyBinary_rename _ v v'
  decides ho v := ho ▸ Lexeme.decides_rename _ v

structure Machine.Renamed (ρ : String → String) (m m' : Machine) : Prop where
  env    : m.env.Renamed ρ m'.env
  output : m'.output = m.output

inductive Run.Renamed (ρ : String → String) : Run → Run → Prop
  | done (h : Machine.Renamed ρ m m') : Renamed ρ (.done m) (.done m')
  | stopped (h : Machine.Renamed ρ m m') : Renamed ρ (.stopped why m) (.stopped (why.rename ρ) m')
  | unfinished : Renamed ρ .unfinished .unfinished

namespace Run.Renamed

variable {r r' : Run}

theorem andThen {next next' : Machine → Run} (h : r.Renamed ρ r')
    (hn : ∀ {m m'}, Machine.Renamed ρ m m' → (next m).Renamed ρ (next' m')) :
    (r.andThen next).Renamed ρ (r'.andThen next') := by
  cases h
  case done h => exact hn h
  case stopped h => exact .stopped h
  case unfinished => exact .unfinished

theorem leave (h : r.Renamed ρ r') : r.leave.Renamed ρ r'.leave := by
  cases h
  case unfinished => exact .unfinished
  case done m m' h | stopped m m' _ h =>
    have hl := h.env.leave?
    simp only [Run.leave]
    generalize m.env.leave? = left, m'.env.leave? = left' at hl
    cases hl
    case none => exact .stopped h
    case some hl =>
      constructor
      exact ⟨hl, h.output⟩

theorem exists_stopped {why : Stop} {m : Machine} (h : r.Renamed ρ r') (hr : r = .stopped why m) :
    ∃ m', r' = .stopped (why.rename ρ) m' ∧ m.Renamed ρ m' := by
  cases h <;> cases hr
  exact ⟨_, rfl, ‹_›⟩

theorem eq_unfinished_iff (h : r.Renamed ρ r') : r' = .unfinished ↔ r = .unfinished := by
  cases h <;> simp

end Run.Renamed

namespace Machine.Renamed

variable {m m' : Machine}

theorem eval (h : m.Renamed ρ m') (hρ : ρ.Injective) (e : Expr) :
    Evaluations (Machine.Renamed ρ) (Run.Renamed ρ) (m.eval e) (m'.eval (e.rename ρ)) :=
  (Correspondence.renamed hρ).evaluations (e.like_mapParts (Lexeme.rename ρ) id) h.env (fun he => ⟨he, h.output⟩)
    .stopped

theorem writeValue (h : m.Renamed ρ m') (value : Value) :
    (m.writeValue value).Renamed ρ (m'.writeValue value) := by
  simp only [Machine.writeValue, h.output]
  split
  case h_1 => exact .done ⟨h.env, rfl⟩
  case h_2 => exact .stopped ⟨h.env, rfl⟩

end Machine.Renamed

def Simulation.renamed (hρ : ρ.Injective) : Simulation where
  exprs e e'   := e' = e.rename ρ
  names n n'   := n' = n.rename ρ
  machines     := Machine.Renamed ρ
  runs         := Run.Renamed ρ
  done         := .done
  unfinished   := .unfinished
  andThen h _  := h.andThen
  eval he h    := he ▸ h.eval hρ _
  writeValue h := h.writeValue
  define hn h value := ⟨hn ▸ h.env.define hρ _ value, h.output⟩
  enter h      := ⟨h.env.enter, h.output⟩
  leave h _ _  := h.leave

namespace Stmt

theorem renamed_interpret (hρ : ρ.Injective) (fuel : Nat) (program : List Stmt) {m m' : Machine}
    (h : m.Renamed ρ m') :
    (interpret fuel program m).Renamed ρ (interpret fuel (program.map (rename ρ)) m') :=
  (Simulation.renamed hρ).interpret fuel (forall₂_like_map_mapParts _ _ program) h

-- What variables are called makes no difference to what a program does, where different names stay
-- different. It shows in the names that the environment has and that an error reports.
theorem interpret_rename (hρ : ρ.Injective) (program : List Stmt) (m : Machine) :
    m.Renamed ρ ⟨m.env.rename hρ, m.output⟩ ∧
    (∀ m', m.Renamed ρ m' →
      ((∃ fuel, interpret fuel program m ≠ .unfinished) ↔
        ∃ fuel, interpret fuel (program.map (rename ρ)) m' ≠ .unfinished) ∧
      ∀ fuel, (interpret fuel program m).Renamed ρ (interpret fuel (program.map (rename ρ)) m')) ∧
    ∀ e : RuntimeError, (e.rename ρ).message = if e.kind = .undefinedVariable then
      ⟨e.message.line, e.message.location.rename ρ,
        "Undefined variable '" ++ ρ e.lexeme.content ++ "'."⟩ else e.message := by
  refine ⟨⟨m.env.renamed_rename hρ, rfl⟩, fun m' h => ?_, fun e => e.message_rename⟩
  have hr (fuel : Nat) := renamed_interpret hρ fuel program h
  exact ⟨exists_congr fun fuel => not_congr (hr fuel).eq_unfinished_iff.symm, hr⟩

theorem interpret_rename_of_exchanged :
    let ρ : String → String := Equiv.swap "a" "b"
    let name (text : String) (line : Nat) : Lexeme := ⟨.identifier text, text, line⟩
    let program : List Stmt := [
      .block [
        .declare (name "b" 1) (some <| .variable <| name "a" 1),
        .expression <| .assign (name "a" 2) (.literal .nil),
        .print <| .variable <| name "b" 2],
      .print <| .variable <| name "b" 3]
    let m : Machine := { env := ({} : Environment).define "a" (.string "x") }
    let m' : Machine := { env := ({} : Environment).define "b" (.string "x") }
    ρ.Injective ∧ m.Renamed ρ m' ∧ ∃ m₁ m₁',
      interpret 1 program m = .stopped (.fault (name "b" 3).undefined) m₁ ∧
      interpret 1 (program.map (rename ρ)) m' = .stopped (.fault (name "a" 3).undefined) m₁' ∧
      m₁.env.get? "a" = some .nil ∧ m₁'.env.get? "b" = some .nil ∧ m₁'.output = m₁.output := by
  intro ρ name program m m'
  have hρ : ρ.Injective := (Equiv.swap "a" "b").injective
  have he : ({} : Environment).Renamed ρ {} := ⟨Scope.renamed_empty, .nil⟩
  have hm : m.Renamed ρ m' := ⟨he.define hρ "a" _, rfl⟩
  have h := ((interpret_rename hρ program m).right.left m' hm).right 1
  have hr : interpret 1 program m = .stopped (.fault (name "b" 3).undefined) _ := rfl
  obtain ⟨m₁', hr', h⟩ := h.exists_stopped hr
  exact ⟨hρ, hm, _, m₁', hr, hr', rfl, h.env.get?_eq hρ "a", h.output⟩

end Stmt
end Lox
