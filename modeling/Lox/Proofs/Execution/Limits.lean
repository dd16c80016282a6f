import Lox.Proofs.Execution.Safety
import Lox.Proofs.Execution.Simulation

namespace Lox

namespace Sink

-- The sink as it would be if it had been given a limit at first: it has taken what is within the
-- limit, and has room for what is missing of it.
def upTo (limit : Nat) (s : Sink) : Sink where
  taken := (s.taken.toList.take limit).toArray
  room  := some (limit - s.taken.size)

variable {s s' : Sink} {limit : Nat}

theorem Grows.size_le (h : s.Grows s') : s.taken.size ≤ s'.taken.size := by
  have ⟨bytes, ht, _⟩ := h
  have hs := congrArg List.length ht
  simp only [List.length_append, Array.length_toList] at hs
  omega

theorem Grows.upTo_eq (h : s.Grows s') (hl : limit ≤ s.taken.size) :
    s'.upTo limit = s.upTo limit := by
  have ⟨bytes, ht, _⟩ := h
  have hs := h.size_le
  simp only [upTo, ht, mk.injEq, Option.some.injEq, List.take_append_of_le_length hl, true_and]
  omega

theorem toList_upTo_append (s : Sink) (bytes : List UInt8) (n : Nat) :
    ((s.append bytes).upTo (s.taken.size + n)).taken.toList = s.taken.toList ++ bytes.take n := by
  simp [upTo, List.take_append, List.take_of_length_le]

theorem write_upTo (hr : s.room = none) (hf : s.taken.size ≤ limit) (text : String) :
    (s.upTo limit).write text =
      (decide ((s.write text).2.taken.size ≤ limit), (s.write text).2.upTo limit) := by
  have ⟨taken, room⟩ := s
  cases hr
  have hl : taken.size ≤ limit := hf
  have ht (bytes : List UInt8) : taken ++ bytes = (taken.toList ++ bytes).toArray :=
    Array.toList_inj.mp <| by simp
  simp only [upTo, write, ht, List.take_append, List.take_of_length_le (l := taken.toList) hl,
    List.size_toArray, List.length_append, Array.length_toList, Nat.sub_sub]
  apply Prod.ext
  case fst =>
    simp only [decide_eq_decide]
    omega
  case snd => simp

end Sink

namespace Machine

def upTo (limit : Nat) (m : Machine) : Machine :=
  { m with output := m.output.upTo limit }

structure LimitedTo (limit : Nat) (m m' : Machine) : Prop where
  unlimited : m.output.room = none
  fits      : m.output.taken.size ≤ limit
  eq        : m' = m.upTo limit

structure CutTo (limit : Nat) (m m' : Machine) : Prop where
  unlimited : m.output.room = none
  crosses   : limit < m.output.taken.size
  output    : m'.output = m.output.upTo limit

variable {m m' m₁ : Machine} {limit : Nat}

theorem CutTo.of_grows (h : m.CutTo limit m') (hg : m.Grows m₁) : m₁.CutTo limit m' where
  unlimited := hg.output.room_eq_none h.unlimited
  crosses   := Nat.lt_of_lt_of_le h.crosses hg.output.size_le
  output    := h.output.trans (hg.output.upTo_eq <| Nat.le_of_lt h.crosses).symm

end Machine

-- A run without a limit, and the same run with it. They are the same while the output is within the
-- limit, and the text that crosses it stops the second one. What the first does after that is of no
-- account.
inductive Run.LimitedTo (limit : Nat) : Run → Run → Prop
  | done (h : m.LimitedTo limit m') : LimitedTo limit (.done m) (.done m')
  | stopped (h : m.LimitedTo limit m') : LimitedTo limit (.stopped why m) (.stopped why m')
  | cut (hm : m ∈ Run.machine? r) (h : m.CutTo limit m') : LimitedTo limit r (.stopped .sinkFull m')
  | unfinished : LimitedTo limit .unfinished r'

theorem Run.mem_machine?_leave {m : Machine} {r : Run} {env : Environment} (hm : m ∈ r.machine?)
    (hl : m.env.leave? = some env) : ⟨env, m.output⟩ ∈ r.leave.machine? := by
  cases r <;> cases hm <;> simp [leave, machine?, hl]

theorem Machine.GrowsTo.limitedTo {m m' : Machine} {r : Run} {limit : Nat} (h : m.GrowsTo r)
    (hc : m.CutTo limit m') : r.LimitedTo limit (.stopped .sinkFull m') := by
  cases r
  case done => exact .cut rfl <| hc.of_grows h
  case stopped => exact .cut rfl <| hc.of_grows h.left
  case unfinished => exact .unfinished

theorem Run.LimitedTo.andThen {limit : Nat} {r r' : Run} {next next' : Machine → Run}
    (h : r.LimitedTo limit r') (hg : ∀ m : Machine, m.GrowsTo (next m))
    (hn : ∀ {m m'}, Machine.LimitedTo limit m m' → (next m).LimitedTo limit (next' m')) :
    (r.andThen next).LimitedTo limit (r'.andThen next') := by
  cases h
  case done h => exact hn h
  case stopped h => exact .stopped h
  case cut h hm =>
    cases r <;> cases hm
    case done => exact (hg _).limitedTo h
    case stopped => exact .cut rfl h
  case unfinished => exact .unfinished

namespace Machine.LimitedTo

variable {m m' : Machine} {limit : Nat}

theorem eval (h : m.LimitedTo limit m') (e : Expr) :
    Evaluations (Machine.LimitedTo limit) (Run.LimitedTo limit) (m.eval e) (m'.eval e) := by
  have ⟨hr, hf, he⟩ := h
  simp only [he, Machine.eval, upTo]
  cases (e.eval m.env).1
  case error => exact .error <| .stopped ⟨hr, hf, rfl⟩
  case ok => exact .ok ⟨hr, hf, rfl⟩

theorem writeValue (h : m.LimitedTo limit m') (value : Value) :
    (m.writeValue value).LimitedTo limit (m'.writeValue value) := by
  have ⟨hr, hf, he⟩ := h
  have hw := Sink.write_upTo hr hf (value.text ++ "\n")
  simp only [he, upTo, Machine.writeValue, Sink.writeLine, hw, Sink.write_of_unlimited hr]
  have hr := (Sink.room_append <| Utf8.encode (value.text ++ "\n").toList).trans hr
  generalize m.output.append (Utf8.encode (value.text ++ "\n").toList) = output at hr ⊢
  cases hl : decide (output.taken.size ≤ limit)
  case false =>
    exact .cut (m := ⟨m.env, output⟩) rfl ⟨hr, Nat.lt_of_not_le <| of_decide_eq_false hl, rfl⟩
  case true => exact .done ⟨hr, of_decide_eq_true hl, rfl⟩

theorem leave {r r' : Run} (h : r.LimitedTo limit r') (hg : m.enter.GrowsTo r)
    (hg' : m'.enter.GrowsTo r') : r.leave.LimitedTo limit r'.leave := by
  cases h
  case done h =>
    have ⟨hr, hf, he⟩ := h
    have ⟨env, hl, _⟩ := Environment.Grows.leave? hg.env
    simp only [he, Run.leave, upTo, hl]
    exact .done ⟨hr, hf, rfl⟩
  case stopped h =>
    have ⟨hr, hf, he⟩ := h
    have ⟨env, hl, _⟩ := Environment.Grows.leave? hg.left.env
    simp only [he, Run.leave, upTo, hl]
    exact .stopped ⟨hr, hf, rfl⟩
  case cut m₁ m₁' h hm =>
    have ⟨env', hl', _⟩ := Environment.Grows.leave? hg'.left.env
    have ⟨env, hl, _⟩ := Environment.Grows.leave? (hg.grows hm).env
    have hr : (Run.stopped .sinkFull m₁').leave = .stopped .sinkFull ⟨env', m₁'.output⟩ := by
      simp only [Run.leave, hl']
    exact hr ▸ .cut (Run.mem_machine?_leave hm hl) ⟨h.unlimited, h.crosses, h.output⟩
  case unfinished => exact .unfinished

end Machine.LimitedTo

def Simulation.limited (limit : Nat) : Simulation where
  exprs      := Eq
  names      := Eq
  machines   := Machine.LimitedTo limit
  runs       := Run.LimitedTo limit
  done       := .done
  unfinished := .unfinished
  andThen    := Run.LimitedTo.andThen
  eval       := fun he h => he ▸ h.eval _
  writeValue := fun h value => h.writeValue value
  define     := fun hn ⟨hr, hf, he⟩ value => ⟨hr, hf, by rw [hn, he]; rfl⟩
  enter      := fun ⟨hr, hf, he⟩ => ⟨hr, hf, by rw [he]; rfl⟩
  leave      := Machine.LimitedTo.leave

theorem Stmt.interpret_limitedTo (fuel : Nat) (program : List Stmt) {m m' : Machine} {limit : Nat}
    (h : m.LimitedTo limit m') :
    (interpret fuel program m).LimitedTo limit (interpret fuel program m') :=
  (Simulation.limited limit).interpret fuel (List.forall₂_same.mpr fun stmt _ =>
    stmt.like_self fun _ => rfl) h

end Lox
