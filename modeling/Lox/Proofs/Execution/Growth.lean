import Lox.Proofs.Execution.Sequencing
import Lox.Proofs.Scoping.Preservation

namespace Lox

open List (Forall₂)

namespace Scope

def Grows (s s' : Scope) : Prop :=
  ∀ name ∈ s.names, name ∈ s'.names

theorem Grows.refl (s : Scope) : s.Grows s :=
  fun _ h => h

theorem Grows.trans {s₁ s₂ s₃ : Scope} (h : s₁.Grows s₂) (h' : s₂.Grows s₃) : s₁.Grows s₃ :=
  fun _ hn => h' _ <| h _ hn

theorem grows_set (s : Scope) (name : String) (value : Value) : s.Grows (s.set name value) :=
  fun _ h => mem_names_set.mpr <| .inl h

theorem forall₂_grows_refl (ss : List Scope) : Forall₂ Grows ss ss :=
  List.forall₂_same.mpr fun s _ => .refl s

theorem forall₂_grows_trans {ss₁ ss₂ ss₃ : List Scope} (h : Forall₂ Grows ss₁ ss₂)
    (h' : Forall₂ Grows ss₂ ss₃) : Forall₂ Grows ss₁ ss₃ := by
  induction h generalizing ss₃ <;> cases h'
  case nil => exact .nil
  case cons hs _ hi _ _ hs' hl' => exact .cons (hs.trans hs') (hi hl')

end Scope

namespace Environment

structure Grows (env env' : Environment) : Prop where
  globals : env.globals.Grows env'.globals
  locals  : Forall₂ Scope.Grows env.locals env'.locals

def names (env : Environment) : Names where
  globals := env.globals.names
  locals  := env.locals.map Scope.names

theorem has_names (env : Environment) : env.Has env.names where
  globals := fun _ => Iff.rfl
  locals  := List.forall₂_map_right_iff.mpr <| List.forall₂_same.mpr fun _ _ _ => Iff.rfl

namespace Grows

variable {env env₁ env₂ : Environment}

theorem refl (env : Environment) : env.Grows env where
  globals := .refl _
  locals  := Scope.forall₂_grows_refl _

theorem trans (h : env.Grows env₁) (h' : env₁.Grows env₂) : env.Grows env₂ where
  globals := h.globals.trans h'.globals
  locals  := Scope.forall₂_grows_trans h.locals h'.locals

theorem of_has (h : env₁.Has env.names) : env.Grows env₁ where
  globals := fun name hn => (h.globals name).mpr hn
  locals  := (List.forall₂_map_right_iff.mp h.locals).flip.imp fun _ _ hs name => (hs name).mpr

theorem depth_eq (h : env.Grows env₁) : env₁.depth = env.depth := by
  rw [depth, depth, h.locals.length_eq]

theorem isSome_get? (h : env.Grows env₁) {name : String} (hn : (env.globals.get? name).isSome) :
    (env₁.globals.get? name).isSome :=
  (Scope.get?_isSome_iff ..).mpr <| h.globals _ <| (Scope.get?_isSome_iff ..).mp hn

theorem leave? (h : env.enter.Grows env₁) : ∃ env₂, env₁.leave? = some env₂ ∧ env.Grows env₂ := by
  have ⟨globals, locals⟩ := env₁
  cases h.locals
  case cons hl => exact ⟨_, rfl, h.globals, hl⟩

end Grows

theorem grows_define (env : Environment) (name : String) (value : Value) :
    env.Grows (env.define name value) := by
  have ⟨globals, locals⟩ := env
  cases locals
  case nil => exact ⟨globals.grows_set name value, .nil⟩
  case cons s ss => exact ⟨.refl _, .cons (s.grows_set name value) (Scope.forall₂_grows_refl ss)⟩

end Environment

theorem Expr.grows_eval (e : Expr) (env : Environment) : env.Grows (e.eval env).2 :=
  .of_has <| e.has_eval env.has_names

namespace Sink

def Grows (s s' : Sink) : Prop :=
  ∃ bytes, s'.taken.toList = s.taken.toList ++ bytes ∧ s'.room = s.room.map (· - bytes.length)

theorem Grows.refl (s : Sink) : s.Grows s :=
  ⟨[], by simp, by cases s.room <;> rfl⟩

theorem Grows.trans {s₁ s₂ s₃ : Sink} (h : s₁.Grows s₂) (h' : s₂.Grows s₃) : s₁.Grows s₃ := by
  have ⟨bytes, ht, hr⟩ := h
  have ⟨bytes', ht', hr'⟩ := h'
  refine ⟨bytes ++ bytes', by simp [ht, ht'], ?_⟩
  cases hn : s₁.room <;> simp [hr', hr, hn, Nat.sub_sub]

theorem grows_write (s : Sink) (text : String) : s.Grows (s.write text).2 := by
  have ⟨taken, room⟩ := s
  cases room
  case none => exact ⟨Utf8.encode text.toList, by simp [write], rfl⟩
  case some n =>
    refine ⟨(Utf8.encode text.toList).take n, by simp [write], ?_⟩
    simp only [write, Option.map_some, List.length_take, Option.some.injEq]
    omega

def append (s : Sink) (bytes : List UInt8) : Sink :=
  { s with taken := s.taken ++ bytes }

variable {s s' : Sink}

@[simp]
theorem toList_append (s : Sink) (bytes : List UInt8) :
    (s.append bytes).taken.toList = s.taken.toList ++ bytes := by
  simp [append]

@[simp]
theorem size_append (bytes : List UInt8) :
    (s.append bytes).taken.size = s.taken.size + bytes.length := by
  have h := congrArg List.length <| s.toList_append bytes
  rwa [List.length_append, Array.length_toList, Array.length_toList] at h

@[simp]
theorem room_append (bytes : List UInt8) : (s.append bytes).room = s.room :=
  rfl

theorem append_nil : s.append [] = s := by
  simp [append]

theorem append_append (bytes bytes' : List UInt8) :
    (s.append bytes).append bytes' = s.append (bytes ++ bytes') := by
  have ht : (s.taken ++ bytes) ++ bytes' = s.taken ++ (bytes ++ bytes') :=
    Array.toList_inj.mp <| by simp
  simp only [append, ht]

theorem Grows.room_eq_none (h : s.Grows s') (hr : s.room = none) : s'.room = none := by
  have ⟨_, _, h⟩ := h
  simp [h, hr]

theorem Grows.exists_append (h : s.Grows s') (hr : s.room = none) : ∃ bytes, s' = s.append bytes := by
  have ⟨taken, room⟩ := s'
  have ⟨bytes, ht, hr'⟩ := h
  have ht : taken = (s.append bytes).taken :=
    Array.toList_inj.mp <| ht.trans (s.toList_append bytes).symm
  have hr' : room = s.room := by simpa [hr] using hr'
  exact ⟨bytes, by simp only [ht, hr']; rfl⟩

theorem toList_of_write {text : String} (h : s.write text = (true, s')) :
    s'.taken.toList = s.taken.toList ++ Utf8.encode text.toList := by
  have ⟨taken, room⟩ := s
  cases room
  case none =>
    cases h
    simp
  case some n =>
    have ⟨hl, hs⟩ := Prod.mk.inj h
    subst hs
    simp [List.take_of_length_le (of_decide_eq_true hl)]

theorem write_of_unlimited (hr : s.room = none) (text : String) :
    s.write text = (true, s.append <| Utf8.encode text.toList) := by
  have ⟨taken, room⟩ := s
  cases hr
  rfl

-- There is room for so many bytes more. A sink without a limit has room for any number, so this is
-- what it takes for a sink not to fail.
def HasRoom (s : Sink) (n : Nat) : Prop :=
  ∀ room ∈ s.room, n ≤ room

variable {n : Nat}

theorem HasRoom.of_le {m : Nat} (h : s.HasRoom n) (hm : m ≤ n) : s.HasRoom m :=
  fun room hr => Nat.le_trans hm (h room hr)

theorem hasRoom_of_unlimited (hr : s.room = none) (n : Nat) : s.HasRoom n := by
  intro room h
  rw [hr] at h
  contradiction

theorem HasRoom.exists_write (text : String)
    (h : s.HasRoom ((Utf8.encode text.toList).length + n)) :
    ∃ s', s.write text = (true, s') ∧ s'.HasRoom n := by
  have ⟨taken, room⟩ := s
  cases room
  case none => exact ⟨_, rfl, hasRoom_of_unlimited rfl n⟩
  case some room =>
    have hl : (Utf8.encode text.toList).length + n ≤ room := h room rfl
    refine ⟨_, Prod.ext (decide_eq_true (by omega)) rfl, fun room' hr => ?_⟩
    cases hr
    omega

end Sink

namespace Machine

structure Grows (m m' : Machine) : Prop where
  env    : m.env.Grows m'.env
  output : m.output.Grows m'.output

def Allows (m : Machine) : Stop → Prop
  | .fault _    => True
  | .sinkFull   => m.output.room ≠ none
  | .unbalanced => False

-- Runs only add. However a run ends, there are as many scopes as before, each with all the names
-- that it had, and what was written before is still there. So a block always finds a scope to
-- leave, and only a sink with a limit can be full.
def GrowsTo (m : Machine) : Run → Prop
  | .done m'        => m.Grows m'
  | .stopped why m' => m.Grows m' ∧ m.Allows why
  | .unfinished     => True

theorem Grows.refl (m : Machine) : m.Grows m where
  env    := .refl _
  output := .refl _

theorem Grows.trans {m₁ m₂ m₃ : Machine} (h : m₁.Grows m₂) (h' : m₂.Grows m₃) : m₁.Grows m₃ where
  env    := h.env.trans h'.env
  output := h.output.trans h'.output

theorem Grows.allows {m m₁ : Machine} {why : Stop} (h : m.Grows m₁) (hw : m₁.Allows why) :
    m.Allows why := by
  cases why
  case sinkFull => exact fun hr => hw <| h.output.room_eq_none hr
  all_goals exact hw

theorem Grows.growsTo {m m₁ : Machine} {r : Run} (h : m.Grows m₁) (hr : m₁.GrowsTo r) :
    m.GrowsTo r := by
  cases r
  case done => exact h.trans hr
  case stopped => exact hr.imp h.trans h.allows
  case unfinished => trivial

theorem growsTo_andThen {m : Machine} {r : Run} {next : Machine → Run} (h : m.GrowsTo r)
    (hn : ∀ m₁ : Machine, m₁.GrowsTo (next m₁)) : m.GrowsTo (r.andThen next) := by
  cases r
  case done m₁ => exact Grows.growsTo h (hn m₁)
  case stopped => exact h
  case unfinished => trivial

variable (m : Machine)

theorem grows_eval (e : Expr) : m.Grows (m.eval e).2 where
  env    := e.grows_eval m.env
  output := .refl _

theorem growsTo_evaluate (e : Expr) {next : Value → Machine → Run}
    (hn : ∀ value, ∀ m₁ : Machine, m₁.GrowsTo (next value m₁)) : m.GrowsTo (m.evaluate e next) := by
  have h := m.grows_eval e
  rw [evaluate]
  generalize m.eval e = r at h ⊢
  rcases r with ⟨_ | value, m₁⟩
  case error => exact ⟨h, trivial⟩
  case ok => exact h.growsTo (hn value m₁)

theorem growsTo_writeValue (value : Value) : m.GrowsTo (m.writeValue value) := by
  have ⟨env, output⟩ := m
  have h := output.grows_write (value.text ++ "\n")
  have hf : output.room = none → (output.write (value.text ++ "\n")).1 = true := fun hr => by
    rw [Sink.write_of_unlimited hr]
  rw [writeValue, Sink.writeLine]
  generalize output.write (value.text ++ "\n") = r at h hf ⊢
  rcases r with ⟨_ | _, output'⟩
  case false => exact ⟨⟨.refl _, h⟩, fun hr => Bool.false_ne_true <| hf hr⟩
  case true => exact ⟨.refl _, h⟩

theorem growsTo_define (name : String) (value : Value) :
    m.GrowsTo (.done (m.define name value)) where
  env    := m.env.grows_define name value
  output := .refl _

theorem growsTo_leave {r : Run} (h : m.enter.GrowsTo r) : m.GrowsTo r.leave := by
  cases r
  case done m₁ =>
    have ⟨env₂, he, hg⟩ := Environment.Grows.leave? h.env
    simp only [Run.leave, he]
    exact ⟨hg, h.output⟩
  case stopped why m₁ =>
    have ⟨env₂, he, hg⟩ := Environment.Grows.leave? h.left.env
    simp only [Run.leave, he]
    exact ⟨⟨hg, h.left.output⟩, by cases why <;> exact h.right⟩
  case unfinished => trivial

theorem growsTo_repeatWhile {condition : Expr} {body : Machine → Run}
    (hb : ∀ m : Machine, m.GrowsTo (body m)) (fuel : Nat) :
    m.GrowsTo (repeatWhile condition body fuel m) := by
  induction fuel generalizing m
  case zero => trivial
  case succ fuel hi =>
    rw [repeatWhile_succ]
    refine m.growsTo_evaluate condition fun value m₁ => ?_
    split
    case isTrue => exact growsTo_andThen (hb m₁) hi
    case isFalse => exact .refl m₁

end Machine

namespace Stmt

mutual

theorem growsTo_exec (fuel : Nat) (stmt : Stmt) (m : Machine) : m.GrowsTo (stmt.exec fuel m) := by
  cases stmt
  case print value =>
    rw [exec_print]
    exact m.growsTo_evaluate value fun v m₁ => m₁.growsTo_writeValue v
  case expression value =>
    rw [exec_expression]
    exact m.growsTo_evaluate value fun _ m₁ => .refl m₁
  case declare name initial =>
    cases initial
    case none =>
      rw [exec_declare_none]
      exact m.growsTo_define name.content .nil
    case some initial =>
      rw [exec_declare_some]
      exact m.growsTo_evaluate initial fun v m₁ => m₁.growsTo_define name.content v
  case block body =>
    rw [exec_block]
    exact m.growsTo_leave <| growsTo_execAll fuel body m.enter
  case ifThen condition branch =>
    rw [exec_ifThen]
    refine m.growsTo_evaluate condition fun v m₁ => ?_
    split
    case isTrue => exact growsTo_exec fuel branch m₁
    case isFalse => exact .refl m₁
  case ifElse condition branch otherwise =>
    rw [exec_ifElse]
    refine m.growsTo_evaluate condition fun v m₁ => ?_
    split
    case isTrue => exact growsTo_exec fuel branch m₁
    case isFalse => exact growsTo_exec fuel otherwise m₁
  case loop condition body =>
    rw [exec_loop]
    exact m.growsTo_repeatWhile (growsTo_exec fuel body) fuel

theorem growsTo_execAll (fuel : Nat) (stmts : List Stmt) (m : Machine) :
    m.GrowsTo (execAll fuel stmts m) := by
  cases stmts
  case nil =>
    rw [execAll_nil]
    exact .refl m
  case cons stmt stmts =>
    rw [execAll_cons]
    exact Machine.growsTo_andThen (growsTo_exec fuel stmt m) (growsTo_execAll fuel stmts)

end

theorem growsTo_interpret (fuel : Nat) (program : List Stmt) (m : Machine) :
    m.GrowsTo (interpret fuel program m) := by
  rw [interpret_eq_execAll]
  exact growsTo_execAll fuel _ m

theorem interpret_ne_sinkFull {m : Machine} (hr : m.output.room = none) (fuel : Nat)
    (program : List Stmt) (m' : Machine) : interpret fuel program m ≠ .stopped .sinkFull m' := by
  intro h
  have hg := growsTo_interpret fuel program m
  simp only [h] at hg
  exact hg.right hr

end Stmt
end Lox
