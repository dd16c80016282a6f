import Lox.Proofs.Session.Messages
import Lox.Session.Prompt

namespace Lox

namespace Console

variable {fuel : Nat} {c c' : Console}

theorem grows_of_write {text : String} {fits : Bool} (h : c.write text = (fits, c')) :
    c.session.Grows c'.session := by
  rcases c with ⟨⟨⟨env, output⟩, errors⟩, _ | prompts⟩ <;> cases h
  case none => exact ⟨⟨.refl _, output.grows_write text⟩, .refl _⟩
  case some => exact .refl _

theorem grows_of_answer {line : List UInt8} {result : Except Failure Outcome}
    (h : c.answer fuel line = (result, c')) (hr : result ≠ .error .unfinished) :
    c.session.Grows c'.session := by
  simp only [answer] at h
  cases ht : Utf8.text? line <;> simp only [ht] at h <;> cases h
  case none => exact .refl _
  case some => exact (Session.runs_iff.mp ⟨fuel, rfl, hr⟩).grows

theorem grows_converse {lines : List (List UInt8)}
    (h : (c.converse fuel lines).1 ≠ .error .unfinished) :
    c.session.Grows (c.converse fuel lines).2.session := by
  fun_induction converse fuel c lines
  case case1 hc => exact grows_of_write hc
  case case2 hc _ hw | case3 hc _ hw => exact (grows_of_write hc).trans (grows_of_write hw)
  case case4 hc _ _ _ _ ha =>
    exact (grows_of_write hc).trans <| grows_of_answer ha fun he => h <| by cases he; rfl
  case case5 hc _ _ _ _ ha hi =>
    exact (grows_of_write hc).trans <| (grows_of_answer ha nofun).trans (hi h)

end Console

namespace Session

inductive Call
  | check (source : String)
  | run (source : String)
  | runFile (file : Except Failure (List UInt8))
  | prompt (prompts : Option Sink) (lines : List (List UInt8))

inductive Returns (s : Session) : Call → Session → Prop
  | check (source : String) : Returns s (.check source) (s.check source).2
  | run (h : s.Runs source result s') : Returns s (.run source) s'
  | runFile (h : (s.runFile fuel file).1 ≠ .error .unfinished) :
    Returns s (.runFile file) (s.runFile fuel file).2
  | prompt (h : (Console.converse fuel ⟨s, prompts⟩ lines).1 ≠ .error .unfinished) :
    Returns s (.prompt prompts lines) (Console.converse fuel ⟨s, prompts⟩ lines).2.session

inductive History (first : Session) : List Call → Session → Prop
  | nil : History first [] first
  | snoc (h : History first calls s) (hc : s.Returns call s') : History first (calls ++ [call]) s'

variable {s s' first : Session} {call : Call} {calls : List Call} {source : String}

theorem machine_check (s : Session) (source : String) : (s.check source).2.machine = s.machine := by
  simp only [check_eq]
  split <;> rfl

theorem grows_check (s : Session) (source : String) : s.Grows (s.check source).2 := by
  have h := s.errors.grows_report (staticMessages source)
  simp only [check_eq]
  generalize s.errors.report (staticMessages source) = r at h ⊢
  rcases r with ⟨_ | _, errors⟩ <;> exact ⟨.refl _, h⟩

theorem Returns.grows (h : s.Returns call s') : s.Grows s' := by
  cases h
  case check source => exact s.grows_check source
  case run h => exact (runs_iff.mp h).grows
  case runFile file h =>
    cases file
    case error => exact .refl s
    case ok => exact (runs_iff.mp ⟨_, rfl, h⟩).grows
  case prompt h => exact Console.grows_converse h

theorem History.grows (h : History first calls s) : first.Grows s := by
  induction h
  case nil => exact .refl first
  case snoc hc hi => exact hi.trans hc.grows

-- The outcome can be told from what has been written about errors: nothing for success, the
-- messages of the source for a static error, and for an error of the run one message, which is
-- unlike all of those.
structure Told (s : Session) (source : String) (o : Outcome) (s' : Session) : Prop where
  static_iff    : o = .staticError ↔ staticMessages source ≠ []
  toList_static : o = .staticError → s'.errors.taken.toList =
    s.errors.taken.toList ++ (staticMessages source).flatMap Message.bytes
  runtime_iff   : o = .runtimeError ↔ ∃ e : RuntimeError, e.Of source ∧
    s'.errors.taken.toList = s.errors.taken.toList ++ e.message.bytes
  raised        : o = .runtimeError → ∃ fuel e,
    Stmt.interpret fuel (program source) s.machine = .stopped (.fault (.error e)) s'.machine ∧
    s'.errors.taken.toList = s.errors.taken.toList ++ e.message.bytes
  success_iff   : o = .success ↔ s'.errors.taken.toList = s.errors.taken.toList

theorem Ends.told {o : Outcome} (h : s.Ends source (.ok o) s') : s.Told source o s' := by
  generalize hr : Except.ok o = result at h
  cases h
  case static fits after hm hs =>
    cases fits <;> cases hr
    have ht := Sink.toList_of_report hs
    have hn : (staticMessages source).flatMap Message.bytes ≠ [] := by
      have ⟨m, ms, he⟩ := List.exists_cons_of_ne_nil hm
      simp [he, m.bytes_ne_nil]
    refine ⟨iff_of_true rfl hm, fun _ => ht, iff_of_false nofun ?_, nofun, iff_of_false nofun ?_⟩
    case refine_1 =>
      intro ⟨e, he, ht'⟩
      exact Message.flatMap_bytes_ne (fun _ => isStatic_of_mem_staticMessages) he <|
        List.append_cancel_left <| ht.symm.trans ht'
    case refine_2 => exact fun he => hn <| List.append_right_eq_self.mp <| ht.symm.trans he
  case done fuel m hm hi =>
    cases hr
    refine ⟨iff_of_false nofun (not_not_intro hm), nofun, iff_of_false nofun ?_, nofun,
      iff_of_true rfl rfl⟩
    intro ⟨e, _, ht⟩
    exact e.message.bytes_ne_nil <| List.self_eq_append_right.mp ht
  case fault fuel e m fits after hm hi hw =>
    cases fits <;> cases hr
    have ht := Sink.toList_of_write hw
    refine ⟨iff_of_false nofun (not_not_intro hm), nofun, iff_of_true rfl ⟨e, of_interpret hi, ht⟩,
      fun _ => ⟨fuel, e, hi, ht⟩, iff_of_false nofun fun he => ?_⟩
    exact e.message.bytes_ne_nil <| List.append_right_eq_self.mp <| ht.symm.trans he
  case cut => contradiction

theorem Ends.exists_outcome {result : Except Failure Outcome} (h : s.Ends source result s')
    (ho : s.machine.output.room = none) (he : s.errors.room = none) : ∃ o, result = .ok o := by
  cases h
  case static hs =>
    simp only [Sink.report_of_unlimited he] at hs
    cases hs
    exact ⟨_, rfl⟩
  case done => exact ⟨_, rfl⟩
  case fault hw =>
    simp only [Sink.writeLine_of_unlimited he] at hw
    cases hw
    exact ⟨_, rfl⟩
  case cut hi => exact absurd hi <| Stmt.interpret_ne_sinkFull ho _ _ _

-- A session that starts with no globals is in order behind every call, and each outcome of a run
-- has its own kind of messages.
theorem History.keeps_order {output errors : Sink}
    (h : History ⟨⟨{}, output⟩, errors⟩ calls s) :
    (∀ call s', s.Returns call s' → s'.machine.env.depth = 1 ∧
      ∀ name, (s.machine.env.globals.get? name).isSome → (s'.machine.env.globals.get? name).isSome) ∧
    (∀ source, (s.check source).2.machine = s.machine) ∧
    (∀ source, staticMessages source ≠ [] → ∀ fuel, (s.run fuel source).2.machine = s.machine) ∧
    (∀ source, (Scan.ofSource source).errors.Pairwise fun e e' => e.line ≤ e'.line) ∧
    (∀ source o s', s.Runs source (.ok o) s' → s.Told source o s') ∧
    (output.room = none → errors.room = none →
      ∀ source result s', s.Runs source result s' → ∃ o, result = .ok o) := by
  refine ⟨fun call s' hc => ⟨?_, fun name => hc.grows.machine.env.isSome_get?⟩, s.machine_check,
    fun source hm fuel => ?_, Scan.pairwise_errors, fun source o s' hr => (runs_iff.mp hr).told,
    fun ho he source result s' hr => ?_⟩
  case refine_1 => exact hc.grows.machine.env.depth_eq.trans h.grows.machine.env.depth_eq
  case refine_2 => simp only [run_of_messages hm]
  case refine_3 =>
    exact (runs_iff.mp hr).exists_outcome (h.grows.machine.output.room_eq_none ho)
      (h.grows.errors.room_eq_none he)

theorem History.keeps_order_of_full_output :
    let first : Session := ⟨⟨{}, ⟨#[], some 3⟩⟩, {}⟩
    let lines := ["var a = \"b\";", "\x7b print b; \x7d", "print a;"].map fun line =>
      Utf8.encode line.toList
    let source := "\x7b var b; \x7b print a; \x7d \x7d"
    ∃ s s', History first [.prompt (some {}) lines] s ∧ s.Runs source (.error .sinkFull) s' ∧
      s'.machine.env.depth = 1 ∧ (s'.machine.env.globals.get? "a").isSome := by
  intro first lines source
  have hp : (Console.converse 1 ⟨first, some {}⟩ lines).1 ≠ .error .unfinished := by decide +kernel
  have ha : ((Console.converse 1 ⟨first, some {}⟩ lines).2.session.machine.env.globals.get?
      "a").isSome := by decide +kernel
  have ho : ((Console.converse 1 ⟨first, some {}⟩ lines).2.session.run 1 source).1 =
      .error .sinkFull := by decide +kernel
  have hr : Runs _ source (.error .sinkFull) _ := ⟨1, Prod.ext ho rfl, by simp⟩
  have h : History first _ _ := .snoc .nil (.prompt hp)
  obtain ⟨hd, hn⟩ := h.keeps_order.left _ _ <| .run hr
  exact ⟨_, _, h, hr, hd, hn _ ha⟩

end Session
end Lox
