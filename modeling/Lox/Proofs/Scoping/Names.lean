import Mathlib.Data.List.Forall2
import Lox.Semantics.Execution

namespace Lox

open List (Forall₂)

structure Names where
  globals : List String
  locals  : List (List String) := []

namespace Scope

-- The scope has exactly the names that it is to have. Names alone determine where a name is found,
-- so nothing has to be known of values.
def Has (s : Scope) (names : List String) : Prop :=
  ∀ name, name ∈ s.names ↔ name ∈ names

variable {s : Scope} {names : List String} {name : String}

theorem mem_names_set {value : Value} {n : String} :
    n ∈ (s.set name value).names ↔ n ∈ s.names ∨ n = name := by
  have h : (s.set name value).names = if name ∈ s.names then s.names else s.names ++ [name] :=
    map_fst_put ..
  rw [h]
  split
  case isTrue hn => exact ⟨.inl, fun hs => hs.elim id fun he => he ▸ hn⟩
  case isFalse => simp

theorem Has.isSome_get? (h : s.Has names) : (s.get? name).isSome ↔ name ∈ names :=
  (s.get?_isSome_iff name).trans (h name)

theorem Has.set {value : Value} (h : s.Has names) :
    (s.set name value).Has (names ++ [name]) := by
  intro n
  rw [mem_names_set, h n, List.mem_append, List.mem_singleton]

theorem Has.set_mem {value : Value} (h : s.Has names) (hn : name ∈ s.names) :
    (s.set name value).Has names := by
  intro n
  rw [mem_names_set, h n]
  exact ⟨fun hm => hm.elim id fun he => he ▸ (h name).mp hn, .inl⟩

theorem forall₂_has_set {ss : List Scope} {nss : List (List String)} (h : Forall₂ Has ss nss)
    {i : Nat} (hi : i < ss.length) (hs : ∀ ns, ss[i].Has ns → s.Has ns) :
    Forall₂ Has (ss.set i s) nss := by
  induction h generalizing i
  case nil => contradiction
  case cons hd hl hi' =>
    cases i
    case zero => exact .cons (hs _ hd) hl
    case succ i => exact .cons hd <| hi' (Nat.lt_of_succ_lt_succ hi) hs

section Innermost

variable {ss : List Scope} {nss : List (List String)}

theorem mem_names_of_findIdx (h : Forall₂ Has ss nss)
    (hs : ss[nss.findIdx fun ns => name ∈ ns]? = some s) : name ∈ s.names := by
  induction h
  case nil => contradiction
  case cons ns _ _ hd _ hi =>
    rw [List.findIdx_cons] at hs
    by_cases hn : name ∈ ns
    case pos =>
      simp only [hn, decide_true, cond_true, List.getElem?_cons_zero] at hs
      cases hs
      exact (hd name).mpr hn
    case neg =>
      simp only [hn, decide_false, cond_false, List.getElem?_cons_succ] at hs
      exact hi hs

theorem findSome?_get? (h : Forall₂ Has ss nss) (name : String) :
    ss.findSome? (·.get? name) = ss[nss.findIdx fun ns => name ∈ ns]?.bind (·.get? name) := by
  induction h
  case nil => rfl
  case cons s ns ss nss hd _ hi =>
    rw [List.findIdx_cons, List.findSome?_cons]
    by_cases hn : name ∈ ns
    case pos =>
      have ⟨value, hv⟩ := Option.isSome_iff_exists.mp <| hd.isSome_get?.mpr hn
      simp only [hn, hv, decide_true, cond_true, List.getElem?_cons_zero, Option.bind_some]
    case neg =>
      have hv := Option.not_isSome_iff_eq_none.mp <| mt hd.isSome_get?.mp hn
      simp only [hn, hv, hi, decide_false, cond_false, List.getElem?_cons_succ]

theorem setInnermost?_eq (h : Forall₂ Has ss nss) (name : String) (value : Value) :
    Environment.setInnermost? name value ss =
      let i := nss.findIdx fun ns => name ∈ ns
      ss[i]?.map fun s => ss.set i (s.set name value) := by
  induction h
  case nil => rfl
  case cons s ns ss nss hd _ hi =>
    rw [List.findIdx_cons, Environment.setInnermost?]
    by_cases hn : name ∈ ns
    case pos =>
      simp only [hn, hd.isSome_get?.mpr hn, if_true, decide_true, cond_true,
        List.getElem?_cons_zero, Option.map_some, List.set_cons_zero]
    case neg =>
      simp only [hn, if_neg <| mt hd.isSome_get?.mp hn, hi, decide_false, cond_false,
        List.getElem?_cons_succ, Option.map_map, List.set_cons_succ]
      rfl

end Innermost
end Scope

namespace Names

variable {names : Names}

def enter (names : Names) : Names :=
  { names with locals := [] :: names.locals }

def define (names : Names) (added : List String) : Names :=
  match names.locals with
  | []           => { names with globals := names.globals ++ added }
  | ns :: locals => { names with locals := (ns ++ added) :: locals }

def within (names : Names) (inner : List (List String)) : Names :=
  { names with locals := inner ++ names.locals }

-- The number of blocks to leave for the innermost one that has the name. Where none has it, all are
-- left, for the globals, whether these have the name or not.
def hops (names : Names) (name : String) : Nat :=
  names.locals.findIdx fun ns => name ∈ ns

def Defines (names : Names) (name : String) : Prop :=
  (∃ ns ∈ names.locals, name ∈ ns) ∨ name ∈ names.globals

theorem define_nil (names : Names) : names.define [] = names := by
  unfold define
  split
  case h_1 => rw [List.append_nil]
  case h_2 hl => rw [List.append_nil, ← hl]

theorem define_define (names : Names) (added added' : List String) :
    (names.define added).define added' = names.define (added ++ added') := by
  cases hl : names.locals <;> simp only [define, hl, List.append_assoc]

theorem within_nil (names : Names) : names.within [] = names :=
  rfl

theorem within_within (names : Names) (inner outer : List (List String)) :
    (names.within outer).within inner = names.within (inner ++ outer) := by
  simp only [within, List.append_assoc]

theorem define_enter (names : Names) (added : List String) :
    names.enter.define added = names.within [added] :=
  rfl

end Names

namespace Environment

structure Has (env : Environment) (names : Names) : Prop where
  globals : env.globals.Has names.globals
  locals  : Forall₂ Scope.Has env.locals names.locals

def scopeAt (env : Environment) (hops : Nat) : Scope :=
  env.locals.getD hops env.globals

def setScope (env : Environment) (hops : Nat) (s : Scope) : Environment :=
  if hops < env.locals.length then { env with locals := env.locals.set hops s }
  else { env with globals := s }

def getAt? (env : Environment) (hops : Nat) (name : String) : Option Value :=
  (env.scopeAt hops).get? name

def assignAt? (env : Environment) (hops : Nat) (name : String) (value : Value) :
    Option Environment :=
  if (env.getAt? hops name).isSome then
    some <| env.setScope hops <| (env.scopeAt hops).set name value
  else none

theorem isSome_assignAt? (env : Environment) (hops : Nat) (name : String) (value : Value) :
    (env.assignAt? hops name value).isSome = (env.getAt? hops name).isSome := by
  rw [assignAt?]
  split
  case isTrue h => rw [h, Option.isSome_some]
  case isFalse h => rw [Option.isSome_none, eq_false_of_ne_true h]

namespace Has

variable {env : Environment} {names : Names}

theorem enter (h : env.Has names) : env.enter.Has names.enter where
  globals := h.globals
  locals  := .cons (fun _ => Iff.rfl) h.locals

theorem of_leave? {env' : Environment} {ns : List String} (h : env.Has (names.within [ns]))
    (hl : env.leave? = some env') : env'.Has names := by
  have ⟨globals, locals⟩ := env
  cases h.locals
  case cons hs =>
    cases hl
    exact ⟨h.globals, hs⟩

theorem define {name : String} {value : Value} (h : env.Has names) :
    (env.define name value).Has (names.define [name]) := by
  have ⟨globals, locals⟩ := env
  have ⟨globals', locals'⟩ := names
  cases h.locals
  case nil => exact ⟨h.globals.set, .nil⟩
  case cons hs hl => exact ⟨h.globals, .cons hs.set hl⟩

theorem setScope {hops : Nat} {s : Scope} (h : env.Has names)
    (hs : ∀ ns, (env.scopeAt hops).Has ns → s.Has ns) : (env.setScope hops s).Has names := by
  unfold scopeAt at hs
  unfold Environment.setScope
  rw [List.getD_eq_getElem?_getD] at hs
  split
  case isTrue hl =>
    rw [List.getElem?_eq_getElem hl] at hs
    exact ⟨h.globals, Scope.forall₂_has_set h.locals hl hs⟩
  case isFalse hl =>
    rw [List.getElem?_eq_none_iff.mpr (Nat.not_lt.mp hl)] at hs
    exact ⟨hs _ h.globals, h.locals⟩

theorem get?_eq (h : env.Has names) (name : String) :
    env.get? name = env.getAt? (names.hops name) name := by
  have hf := Scope.findSome?_get? h.locals name
  unfold Environment.get? getAt? scopeAt Names.hops
  rw [hf, List.getD_eq_getElem?_getD]
  cases hs : env.locals[names.locals.findIdx fun ns => name ∈ ns]?
  case none => rfl
  case some s =>
    have ⟨value, hv⟩ := Option.isSome_iff_exists.mp <|
      (s.get?_isSome_iff name).mpr <| Scope.mem_names_of_findIdx h.locals hs
    simp only [Option.bind_some, Option.getD_some, hv]

theorem assign?_eq (h : env.Has names) (name : String) (value : Value) :
    env.assign? name value = env.assignAt? (names.hops name) name value := by
  have hf := Scope.setInnermost?_eq h.locals name value
  unfold Environment.assign? assignAt? getAt? Environment.setScope scopeAt Names.hops
  rw [hf, List.getD_eq_getElem?_getD]
  dsimp only
  cases hs : env.locals[names.locals.findIdx fun ns => name ∈ ns]?
  case none =>
    have hl := Nat.not_lt.mpr <| List.getElem?_eq_none_iff.mp hs
    simp only [Option.map_none, Option.getD_none, if_neg hl]
  case some s =>
    have ⟨hl, _⟩ := List.getElem?_eq_some_iff.mp hs
    have hn := (s.get?_isSome_iff name).mpr <| Scope.mem_names_of_findIdx h.locals hs
    simp only [Option.map_some, Option.getD_some, hn, if_true, if_pos hl]

theorem isSome_getAt? (h : env.Has names) (name : String) :
    (env.getAt? (names.hops name) name).isSome ↔ names.Defines name := by
  have hd : (∃ ns ∈ names.locals, name ∈ ns) ↔ names.hops name < env.locals.length := by
    rw [h.locals.length_eq, Names.hops, List.findIdx_lt_length]
    simp only [decide_eq_true_eq]
  unfold getAt? scopeAt Names.Defines
  rw [hd, List.getD_eq_getElem?_getD]
  cases hs : env.locals[names.hops name]?
  case none =>
    have hl := Nat.not_lt.mpr <| List.getElem?_eq_none_iff.mp hs
    simp only [Option.getD_none, h.globals.isSome_get?, hl, false_or]
  case some s =>
    have ⟨hl, _⟩ := List.getElem?_eq_some_iff.mp hs
    have hn := (s.get?_isSome_iff name).mpr <| Scope.mem_names_of_findIdx h.locals hs
    simp only [Option.getD_some, hn, hl, true_or]

end Has
end Environment
end Lox
