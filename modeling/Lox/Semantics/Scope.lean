import Lox.Semantics.Value

namespace Lox

-- The values of names. Each name stands once, which is a field here, so that no run has to be shown
-- to keep it. The order is that in which names were first defined, and nothing depends on it.
structure Scope where
  entries  : List (String × Value)
  distinct : (entries.map Prod.fst).Nodup

namespace Scope

def empty : Scope where
  entries  := []
  distinct := List.nodup_nil

def names (s : Scope) : List String :=
  s.entries.map Prod.fst

def find? (name : String) : List (String × Value) → Option Value
  | []           => none
  | (n, v) :: es => if n = name then some v else find? name es

def get? (s : Scope) (name : String) : Option Value :=
  find? name s.entries

def put (name : String) (value : Value) : List (String × Value) → List (String × Value)
  | []           => [(name, value)]
  | (n, v) :: es => if n = name then (name, value) :: es else (n, v) :: put name value es

theorem map_fst_put (name : String) (value : Value) (es : List (String × Value)) :
    (put name value es).map Prod.fst =
      if name ∈ es.map Prod.fst then es.map Prod.fst else es.map Prod.fst ++ [name] := by
  induction es
  case nil => simp [put]
  case cons e es hi =>
    by_cases h : e.1 = name
    case pos => simp [put, h]
    case neg =>
      have h' : ¬name = e.1 := fun hn => h hn.symm
      simp only [put, h, if_false, List.map_cons, hi, List.mem_cons, h', false_or]
      split <;> simp

def set (s : Scope) (name : String) (value : Value) : Scope where
  entries  := put name value s.entries
  distinct := by
    rw [map_fst_put]
    split
    case isTrue => exact s.distinct
    case isFalse h =>
      refine List.nodup_append.mpr ⟨s.distinct, by simp, fun n hn m hm => ?_⟩
      rw [List.mem_singleton.mp hm]
      exact fun e => h (e ▸ hn)

theorem find?_put (name : String) (value : Value) (es : List (String × Value)) (n : String) :
    find? n (put name value es) = if n = name then some value else find? n es := by
  induction es
  case nil => by_cases h : name = n <;> simp [put, find?, h, eq_comm]
  case cons e es hi =>
    by_cases h : e.1 = name
    case pos =>
      by_cases hn : n = name
      case pos => simp [put, find?, h, hn]
      case neg => simp [put, find?, h, hn, Ne.symm hn]
    case neg =>
      by_cases hn : n = name
      case pos => simp_all [put, find?]
      case neg => simp only [put, h, if_false, find?, hi, hn]

theorem get?_set (s : Scope) (name : String) (value : Value) (n : String) :
    (s.set name value).get? n = if n = name then some value else s.get? n :=
  find?_put ..

theorem find?_isSome_iff (name : String) (es : List (String × Value)) :
    (find? name es).isSome ↔ name ∈ es.map Prod.fst := by
  induction es
  case nil => simp [find?]
  case cons e es hi =>
    by_cases h : e.1 = name
    case pos => simp [find?, h]
    case neg =>
      have h' : ¬name = e.1 := fun hn => h hn.symm
      simp only [find?, h, if_false, hi, List.map_cons, List.mem_cons, h', false_or]

theorem get?_isSome_iff (s : Scope) (name : String) : (s.get? name).isSome ↔ name ∈ s.names :=
  find?_isSome_iff ..

-- The same names, in whatever order they were defined, with values that the language calls equal.
-- As names are distinct, it is enough to count them and to look up those of the first scope.
def equal (s₁ s₂ : Scope) : Bool :=
  s₁.entries.length == s₂.entries.length &&
  s₁.entries.all fun (name, value) =>
    match s₂.get? name with
    | some value' => value.equal value'
    | none        => false

end Scope

-- The globals, which are never left, and the scopes of the blocks that have been entered, beginning
-- with that of the innermost block.
structure Environment where
  globals : Scope := .empty
  locals  : List Scope := []

namespace Environment

def depth (env : Environment) : Nat :=
  env.locals.length + 1

def enter (env : Environment) : Environment :=
  { env with locals := .empty :: env.locals }

def leave? (env : Environment) : Option Environment :=
  match env.locals with
  | []          => none
  | _ :: locals => some { env with locals }

theorem leave?_enter (env : Environment) : env.enter.leave? = some env :=
  rfl

def define (env : Environment) (name : String) (value : Value) : Environment :=
  match env.locals with
  | []          => { env with globals := env.globals.set name value }
  | s :: locals => { env with locals := s.set name value :: locals }

theorem depth_define (env : Environment) (name : String) (value : Value) :
    (env.define name value).depth = env.depth := by
  unfold define depth
  split <;> simp_all

def get? (env : Environment) (name : String) : Option Value :=
  match env.locals.findSome? (·.get? name) with
  | some value => some value
  | none       => env.globals.get? name

def setInnermost? (name : String) (value : Value) : List Scope → Option (List Scope)
  | []      => none
  | s :: ss =>
    if (s.get? name).isSome then some (s.set name value :: ss)
    else (setInnermost? name value ss).map (s :: ·)

-- Only a name that has a value can be assigned to, in the innermost scope that has it. Where there
-- is none, not even the globals are given the name: that is left to declarations.
def assign? (env : Environment) (name : String) (value : Value) : Option Environment :=
  match setInnermost? name value env.locals with
  | some locals => some { env with locals }
  | none        =>
    if (env.globals.get? name).isSome then
      some { env with globals := env.globals.set name value }
    else none

def equalScopes : List Scope → List Scope → Bool
  | [],        []        => true
  | s₁ :: ss₁, s₂ :: ss₂ => s₁.equal s₂ && equalScopes ss₁ ss₂
  | _,         _         => false

def equal (env₁ env₂ : Environment) : Bool :=
  env₁.globals.equal env₂.globals && equalScopes env₁.locals env₂.locals

end Environment
end Lox
