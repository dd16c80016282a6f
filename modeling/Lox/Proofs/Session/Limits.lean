import Lox.Proofs.Execution.Limits
import Lox.Proofs.Session.Running

namespace Lox

namespace Sink

variable {s : Sink} {limit : Nat}

theorem writeLine_upTo (hr : s.room = none) (hf : s.taken.size ≤ limit) (text : String) :
    (s.upTo limit).writeLine text =
      (decide ((s.writeLine text).2.taken.size ≤ limit), (s.writeLine text).2.upTo limit) :=
  write_upTo hr hf _

theorem report_upTo (hr : s.room = none) (hf : s.taken.size ≤ limit) (ms : List Message) :
    (s.upTo limit).report ms =
      (decide ((s.report ms).2.taken.size ≤ limit), (s.report ms).2.upTo limit) := by
  induction ms generalizing s
  case nil => simp [report, hf]
  case cons m ms hi =>
    have hu := (room_append m.bytes).trans hr
    have hg := (s.append m.bytes).grows_report ms
    simp only [report_cons, writeLine_upTo hr hf, writeLine_of_unlimited hr]
    generalize s.append m.bytes = s₁ at hu hg ⊢
    by_cases hl : s₁.taken.size ≤ limit
    case pos => simp only [hl, decide_true, hi hu hl]
    case neg =>
      have hl' : ¬(s₁.report ms).2.taken.size ≤ limit := fun h => hl <| Nat.le_trans hg.size_le h
      simp only [hl, hl', decide_false, hg.upTo_eq <| Nat.le_of_not_le hl]

end Sink

namespace Session

def upTo (outputLimit errorLimit : Nat) (s : Session) : Session where
  machine := s.machine.upTo outputLimit
  errors  := s.errors.upTo errorLimit

def withRoom (output errors : Nat) (s : Session) : Session where
  machine := { s.machine with output := { s.machine.output with room := some output } }
  errors  := { s.errors with room := some errors }

variable {s s' : Session} {source : String} {o : Outcome} {n m : Nat}

theorem withRoom_eq_upTo (s : Session) (n m : Nat) :
    s.withRoom n m = s.upTo (s.machine.output.taken.size + n) (s.errors.taken.size + m) := by
  simp [withRoom, upTo, Machine.upTo, Sink.upTo, List.take_of_length_le]

theorem Ends.exists_upTo (h : s.Ends source (.ok o) s') (hu : s.machine.output.room = none)
    (hf : s.machine.output.taken.size ≤ n) (hu' : s.errors.room = none)
    (hf' : s.errors.taken.size ≤ m) :
    ∃ result t, (s.upTo n m).Ends source result t ∧
      t.machine.output = s'.machine.output.upTo n ∧
      (s'.machine.output.taken.size ≤ n →
        t = s'.upTo n m ∧ result = reported (decide (s'.errors.taken.size ≤ m)) o) ∧
      (n < s'.machine.output.taken.size → t.errors = s.errors.upTo m ∧ result = .error .sinkFull) := by
  have hi (fuel : Nat) := Stmt.interpret_limitedTo fuel (program source)
    (⟨hu, hf, rfl⟩ : s.machine.LimitedTo n (s.machine.upTo n))
  generalize hr : Except.ok o = result at h
  cases h
  case static fits errors hm hs =>
    cases fits <;> cases hr
    have hl := Sink.report_upTo hu' hf' (staticMessages source)
    simp only [hs] at hl
    exact ⟨_, _, .static hm hl, rfl, fun _ => ⟨rfl, rfl⟩, fun h => absurd hf <| Nat.not_le_of_lt h⟩
  case done fuel m' hm hs =>
    cases hr
    have hl := hi fuel
    generalize hs' : Stmt.interpret fuel (program source) (s.machine.upTo n) = r at hl
    simp only [hs] at hl
    cases hl
    case done hl =>
      have he := hl.eq
      subst he
      refine ⟨_, _, .done hm hs', rfl, fun _ => ⟨rfl, ?_⟩,
        fun h => absurd hl.fits <| Nat.not_le_of_lt h⟩
      simp [reported, hf']
    case cut hl hm' =>
      cases hm'
      -- The run itself has ended, but the one with the limit has filled its sink before that.
      exact ⟨_, _, .cut hm hs', hl.output, fun h => absurd h <| Nat.not_le_of_lt hl.crosses,
        fun _ => ⟨rfl, rfl⟩⟩
  case fault fuel e m' fits errors hm hs hw =>
    cases fits <;> cases hr
    have hl := hi fuel
    generalize hs' : Stmt.interpret fuel (program source) (s.machine.upTo n) = r at hl
    simp only [hs] at hl
    cases hl
    case stopped hl =>
      have he := hl.eq
      subst he
      have hw' := Sink.writeLine_upTo hu' hf' e.message.text
      simp only [hw] at hw'
      exact ⟨_, _, .fault hm hs' hw', rfl, fun _ => ⟨rfl, rfl⟩,
        fun h => absurd hl.fits <| Nat.not_le_of_lt h⟩
    case cut hl hm' =>
      cases hm'
      exact ⟨_, _, .cut hm hs', hl.output, fun h => absurd h <| Nat.not_le_of_lt hl.crosses,
        fun _ => ⟨rfl, rfl⟩⟩
  case cut => contradiction

-- Whatever the limits are, a call that comes to an outcome without them comes to an end with them.
-- What is written with limits is what would be written without, up to a limit, and the call fails
-- if and only if it meets one.
theorem runs_withRoom (hd : s.machine.env.depth = 1) (ho : s.machine.output.room = none)
    (he : s.errors.room = none) (h : s.Runs source (.ok o) s') :
    ∃ written messages : List UInt8,
      s'.machine.output = s.machine.output.append written ∧
      s'.errors = s.errors.append messages ∧ s'.machine.env.depth = 1 ∧
      ∀ n m, ∃ result t, (s.withRoom n m).Runs source result t ∧
        t.machine.output.taken.toList = s.machine.output.taken.toList ++ written.take n ∧
        (∃ seen, seen <+: messages ∧ t.errors.taken.toList = s.errors.taken.toList ++ seen ∧
          (written.length ≤ n → seen = messages.take m) ∧ (n < written.length → seen = [])) ∧
        (written.length ≤ n → messages.length ≤ m →
          result = .ok o ∧ t.machine.env = s'.machine.env) ∧
        (n < written.length ∨ m < messages.length → result = .error .sinkFull) ∧
        t.machine.env.depth = 1 := by
  have h := runs_iff.mp h
  have ⟨hg, hg'⟩ := h.grows
  have ⟨written, hw⟩ := hg.output.exists_append ho
  have ⟨messages, hm⟩ := hg'.exists_append he
  refine ⟨written, messages, hw, hm, hg.env.depth_eq.trans hd, fun n m => ?_⟩
  have ⟨result, t, ht, hto, hfit, hcut⟩ := h.exists_upTo (n := s.machine.output.taken.size + n)
    (m := s.errors.taken.size + m) ho (Nat.le_add_right ..) he (Nat.le_add_right ..)
  simp only [hw, hm, Sink.size_append, Nat.add_le_add_iff_left, Nat.add_lt_add_iff_left]
    at hto hfit hcut
  have hout := (congrArg (·.taken.toList) hto).trans <| Sink.toList_upTo_append ..
  have hdepth := ht.grows.machine.env.depth_eq.trans hd
  refine ⟨result, t, runs_iff.mpr <| withRoom_eq_upTo s n m ▸ ht, hout, ?_⟩
  by_cases hl : written.length ≤ n
  case pos =>
    have ⟨hs, hr⟩ := hfit hl
    have herr : t.errors.taken.toList = s.errors.taken.toList ++ messages.take m := by
      simp only [hs, upTo, hm, Sink.toList_upTo_append]
    have henv : t.machine.env = s'.machine.env := congrArg (·.machine.env) hs
    refine ⟨⟨_, List.take_prefix .., herr, fun _ => rfl, fun h => absurd hl <| Nat.not_le_of_lt h⟩,
      fun _ hl' => ⟨by simp [hr, reported, hl'], henv⟩, fun h => ?_, hdepth⟩
    have hl' : m < messages.length := h.resolve_left <| Nat.not_lt_of_le hl
    simp [hr, reported, hl']
  case neg =>
    have hc := hcut <| Nat.lt_of_not_le hl
    have herr : t.errors.taken.toList = s.errors.taken.toList ++ [] := by
      simp [hc.left, Sink.upTo, List.take_of_length_le]
    exact ⟨⟨[], List.nil_prefix, herr, fun h => absurd h hl, fun _ => rfl⟩,
      fun h => absurd h hl, fun _ => hc.right, hdepth⟩

theorem runs_withRoom_of_one_byte :
    let s : Session := {}
    let source := "if (true) print \"ab\"; print -nil;"
    s.machine.env.depth = 1 ∧ s.machine.output.room = none ∧ s.errors.room = none ∧
      (∃ s', s.Runs source (.ok .runtimeError) s') ∧
      ∃ result t, (s.withRoom 1 9).Runs source result t ∧
        t.machine.output.taken.toList = Utf8.encode ['a'] ∧ t.errors.taken.toList = [] ∧
        result = .error .sinkFull ∧ t.machine.env.depth = 1 := by
  intro s source
  have ho : (s.run 1 source).1 = .ok .runtimeError := by decide +kernel
  have hs : (s.run 1 source).2.machine.output.taken.toList = Utf8.encode "ab\n".toList := by
    decide +kernel
  have hr : s.Runs source (.ok .runtimeError) _ := ⟨1, Prod.ext ho rfl, by simp⟩
  obtain ⟨written, messages, hw, _, _, h⟩ := runs_withRoom rfl rfl rfl hr
  have hw := (congrArg (·.taken.toList) hw).trans <| Sink.toList_append ..
  have hw : written = Utf8.encode "ab\n".toList := hw.symm.trans hs
  obtain ⟨result, t, ht, ho, ⟨seen, _, he, _, hn⟩, _, hc, hd⟩ := h 1 9
  subst hw
  have hl : 1 < (Utf8.encode "ab\n".toList).length := by decide
  exact ⟨rfl, rfl, rfl, ⟨_, hr⟩, result, t, ht, ho, by simp [he, hn hl, s], hc (.inl hl), hd⟩

end Session
end Lox
