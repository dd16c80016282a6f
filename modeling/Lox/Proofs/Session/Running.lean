import Lox.Proofs.Execution.Safety
import Lox.Semantics.Fuel
import Lox.Session.Basic

namespace Lox

def Message.bytes (m : Message) : List UInt8 :=
  Utf8.encode (m.text ++ "\n").toList

namespace Sink

variable (s : Sink)

theorem report_cons (m : Message) (ms : List Message) :
    s.report (m :: ms) = match s.writeLine m.text with
      | (true, s)  => s.report ms
      | (false, s) => (false, s) :=
  rfl

theorem report_singleton (m : Message) : s.report [m] = s.writeLine m.text := by
  rw [report_cons]
  rcases s.writeLine m.text with ⟨_ | _, _⟩ <;> rfl

theorem report_append (ms ms' : List Message) :
    s.report (ms ++ ms') = match s.report ms with
      | (true, s)  => s.report ms'
      | (false, s) => (false, s) := by
  induction ms generalizing s
  case nil => rfl
  case cons m ms hi =>
    simp only [List.cons_append, report_cons]
    generalize s.writeLine m.text = r
    rcases r with ⟨_ | _, s'⟩
    case false => rfl
    case true => exact hi s'

theorem grows_writeLine (text : String) : s.Grows (s.writeLine text).2 :=
  s.grows_write (text ++ "\n")

theorem grows_report (ms : List Message) : s.Grows (s.report ms).2 := by
  induction ms generalizing s
  case nil => exact .refl s
  case cons m ms hi =>
    have h := s.grows_writeLine m.text
    simp only [report_cons]
    generalize s.writeLine m.text = r at h ⊢
    rcases r with ⟨_ | _, s'⟩
    case false => exact h
    case true => exact h.trans (hi s')

variable {s}

theorem toList_of_report {s' : Sink} {ms : List Message} (h : s.report ms = (true, s')) :
    s'.taken.toList = s.taken.toList ++ ms.flatMap Message.bytes := by
  induction ms generalizing s
  case nil =>
    cases h
    simp
  case cons m ms hi =>
    simp only [report_cons] at h
    split at h
    case h_1 s₁ hw => simp [hi h, toList_of_write hw, Message.bytes]
    case h_2 => cases h

theorem writeLine_of_unlimited (hr : s.room = none) (m : Message) :
    s.writeLine m.text = (true, s.append m.bytes) :=
  write_of_unlimited hr _

theorem report_of_unlimited (hr : s.room = none) (ms : List Message) :
    s.report ms = (true, s.append <| ms.flatMap Message.bytes) := by
  induction ms generalizing s
  case nil => simp [report, append_nil]
  case cons m ms hi =>
    have h : (s.append m.bytes).room = none := (room_append _).trans hr
    simp [report_cons, writeLine_of_unlimited hr, hi h, append_append]

theorem HasRoom.exists_report {ms : List Message} {n : Nat}
    (h : s.HasRoom ((ms.flatMap Message.bytes).length + n)) :
    ∃ s', s.report ms = (true, s') ∧ s'.HasRoom n := by
  induction ms generalizing s
  case nil => exact ⟨s, rfl, h.of_le <| Nat.le_add_left ..⟩
  case cons m ms hi =>
    rw [List.flatMap_cons, List.length_append, Nat.add_assoc] at h
    have ⟨s₁, hw, h₁⟩ := h.exists_write _
    have ⟨s', hr, h'⟩ := hi h₁
    exact ⟨s', by simp only [report_cons, writeLine, hw, hr], h'⟩

theorem HasRoom.fits {ms : List Message} {fits : Bool} {s' : Sink}
    (h : s.HasRoom (ms.flatMap Message.bytes).length) (hr : s.report ms = (fits, s')) :
    fits = true := by
  have ⟨_, hs, _⟩ := h.exists_report (n := 0)
  exact congrArg Prod.fst (hr.symm.trans hs)

end Sink

namespace Session

def staticMessages (source : String) : List Message :=
  (Scan.ofSource source).errors.map ScanError.message ++
    (Parsed.ofLexemes (Scan.ofSource source).lexemes).errors.map ParseError.message

def program (source : String) : List Stmt :=
  (Parsed.ofLexemes (Scan.ofSource source).lexemes).statements

theorem wellFormed_program (source : String) : ∀ stmt ∈ program source, stmt.WellFormed := by
  simp only [program, Parsed.ofLexemes]
  cases hp : parse? (Scan.ofSource source).lexemes
  case none => exact nofun
  case some parsed => exact parse?_wellFormed hp

def reported (fits : Bool) (outcome : Outcome) : Except Failure Outcome :=
  if fits then .ok outcome else .error .sinkFull

theorem reported_ne_unfinished (fits : Bool) (outcome : Outcome) :
    reported fits outcome ≠ .error .unfinished := by
  cases fits <;> nofun

-- All that a call can come to: the errors of the source are reported, or the program is done, or it
-- stops at an error or at a sink that is full. There are no others, as nothing that is read from a
-- source crashes.
inductive Ends (s : Session) (source : String) : Except Failure Outcome → Session → Prop
  | static (hm : staticMessages source ≠ [])
    (hr : s.errors.report (staticMessages source) = (fits, after)) :
    Ends s source (reported fits .staticError) ⟨s.machine, after⟩
  | done (hm : staticMessages source = [])
    (hr : Stmt.interpret fuel (program source) s.machine = .done m) :
    Ends s source (.ok .success) ⟨m, s.errors⟩
  | fault (hm : staticMessages source = [])
    (hr : Stmt.interpret fuel (program source) s.machine = .stopped (.fault (.error e)) m)
    (hw : s.errors.writeLine e.message.text = (fits, after)) :
    Ends s source (reported fits .runtimeError) ⟨m, after⟩
  | cut (hm : staticMessages source = [])
    (hr : Stmt.interpret fuel (program source) s.machine = .stopped .sinkFull m) :
    Ends s source (.error .sinkFull) ⟨m, s.errors⟩

variable {fuel fuel' : Nat} {s s' s'' : Session} {source : String}
variable {result result' : Except Failure Outcome}

theorem check_eq (s : Session) (source : String) :
    s.check source = match s.errors.report (staticMessages source) with
      | (true, errors)  => (.ok (if staticMessages source = [] then some (program source) else none),
          ⟨s.machine, errors⟩)
      | (false, errors) => (.error .sinkFull, ⟨s.machine, errors⟩) := by
  have ⟨machine, errors⟩ := s
  simp only [check, report, staticMessages, Sink.report_append, List.append_eq_nil_iff,
    List.map_eq_nil_iff]
  generalize errors.report ((Scan.ofSource source).errors.map ScanError.message) = r
  rcases r with ⟨_ | _, errors⟩
  case false => rfl
  case true =>
    dsimp only
    generalize errors.report (List.map ParseError.message _) = r
    rcases r with ⟨_ | _, errors⟩
    case false => rfl
    case true =>
      simp only [Bool.and_eq_true, List.isEmpty_iff]
      split <;> rfl

theorem run_of_messages (h : staticMessages source ≠ []) :
    s.run fuel source = (reported (s.errors.report (staticMessages source)).1 .staticError,
      ⟨s.machine, (s.errors.report (staticMessages source)).2⟩) := by
  simp only [run, check_eq, h, if_false, reported]
  generalize s.errors.report (staticMessages source) = r
  rcases r with ⟨_ | _, errors⟩ <;> rfl

theorem run_of_program (h : staticMessages source = []) :
    s.run fuel source = conclude s.errors (Stmt.interpret fuel (program source) s.machine) := by
  simp only [run, check_eq, h]
  rfl

-- A call of `run` that comes to an end, whatever fuel that takes. It ends in one way only, since
-- more fuel changes no run that has ended.
def Runs (s : Session) (source : String) (result : Except Failure Outcome) (s' : Session) : Prop :=
  ∃ fuel, s.run fuel source = (result, s') ∧ result ≠ .error .unfinished

theorem run_eq_of_le (hf : fuel ≤ fuel') (h : (s.run fuel source).1 ≠ .error .unfinished) :
    s.run fuel' source = s.run fuel source := by
  by_cases hm : staticMessages source = []
  case neg => simp only [run_of_messages hm]
  case pos =>
    simp only [run_of_program hm] at h ⊢
    apply congrArg (conclude s.errors)
    apply Stmt.interpret_eq_of_le hf
    intro hu
    simp [hu, conclude] at h

theorem Runs.unique (h : s.Runs source result s') (h' : s.Runs source result' s'') :
    result' = result ∧ s'' = s' := by
  have ⟨fuel, hr, hu⟩ := h
  have ⟨fuel', hr', hu'⟩ := h'
  have he := run_eq_of_le (Nat.le_max_left fuel fuel') (by rwa [hr])
  have he' := run_eq_of_le (Nat.le_max_right fuel fuel') (by rwa [hr'])
  simp only [hr, hr'] at he he'
  exact Prod.mk.inj <| he'.symm.trans he

theorem conclude_fault (errors : Sink) (e : RuntimeError) (m : Machine) :
    conclude errors (.stopped (.fault (.error e)) m) =
      (reported (errors.writeLine e.message.text).1 .runtimeError,
        ⟨m, (errors.writeLine e.message.text).2⟩) := by
  simp only [conclude]
  generalize errors.writeLine e.message.text = r
  rcases r with ⟨_ | _, _⟩ <;> rfl

theorem runs_iff : s.Runs source result s' ↔ s.Ends source result s' := by
  constructor
  case mp =>
    intro ⟨fuel, hr, hu⟩
    by_cases hm : staticMessages source = []
    case neg =>
      simp only [run_of_messages hm] at hr
      cases hr
      exact .static hm rfl
    case pos =>
      have hc {why m} (hi : Stmt.interpret fuel (program source) s.machine = .stopped why m) :
          ¬why.IsCrash :=
        Stmt.not_isCrash_of_interpret
          (Stmt.operatorFits_of_wellFormed <| wellFormed_program source) hi
      simp only [run_of_program hm] at hr
      cases hi : Stmt.interpret fuel (program source) s.machine
      case done m =>
        simp only [hi, conclude] at hr
        cases hr
        exact .done hm hi
      case unfinished =>
        simp only [hi, conclude] at hr
        cases hr
        contradiction
      case stopped why m =>
        -- A source that was parsed cannot crash, which leaves a full sink and an error.
        cases why
        case sinkFull =>
          simp only [hi, conclude] at hr
          cases hr
          exact .cut hm hi
        case unbalanced => exact absurd trivial (hc hi)
        case fault f =>
          cases f
          case misfit => exact absurd trivial (hc hi)
          case error e =>
            simp only [hi, conclude_fault] at hr
            cases hr
            exact .fault hm hi rfl
  case mpr =>
    intro h
    cases h
    case static hm hr =>
      exact ⟨0, by simp only [run_of_messages hm, hr], reported_ne_unfinished _ _⟩
    case done fuel m hm hr => exact ⟨fuel, by simp only [run_of_program hm, hr, conclude], nofun⟩
    case fault fuel e m fits after hm hr hw =>
      exact ⟨fuel, by simp only [run_of_program hm, hr, conclude_fault, hw],
        reported_ne_unfinished _ _⟩
    case cut fuel m hm hr => exact ⟨fuel, by simp only [run_of_program hm, hr, conclude], nofun⟩

structure Grows (s s' : Session) : Prop where
  machine : s.machine.Grows s'.machine
  errors  : s.errors.Grows s'.errors

theorem Grows.refl (s : Session) : s.Grows s where
  machine := .refl _
  errors  := .refl _

theorem Grows.trans (h : s.Grows s') (h' : s'.Grows s'') : s.Grows s'' where
  machine := h.machine.trans h'.machine
  errors  := h.errors.trans h'.errors

theorem Ends.grows (h : s.Ends source result s') : s.Grows s' := by
  have hg (fuel : Nat) := Stmt.growsTo_interpret fuel (program source) s.machine
  cases h
  case static hr => exact ⟨.refl _, by simpa [hr] using s.errors.grows_report (staticMessages source)⟩
  case done fuel m _ hr => exact ⟨(hg fuel).grows <| by simp [hr, Run.machine?], .refl _⟩
  case fault fuel e m _ _ _ hr hw =>
    exact ⟨(hg fuel).grows <| by simp [hr, Run.machine?],
      by simpa [hw] using s.errors.grows_writeLine e.message.text⟩
  case cut fuel m _ hr => exact ⟨(hg fuel).grows <| by simp [hr, Run.machine?], .refl _⟩

end Session
end Lox
