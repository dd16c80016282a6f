import Lox.Proofs.Session.History
import Lox.Proofs.Session.Places

namespace Lox

theorem ScanErrorKind.newline_notMem_text (kind : ScanErrorKind) : '\n' ∉ kind.text.toList := by
  cases kind <;> decide

theorem ParseErrorKind.newline_notMem_text (kind : ParseErrorKind) : '\n' ∉ kind.text.toList := by
  cases kind <;> decide

theorem Scan.exists_string_of_newline {source : String} {l : Lexeme}
    (h : l ∈ (ofSource source).lexemes) (hn : '\n' ∈ l.content.toList) :
    ∃ inner : String, l.token = .literal (.string inner) ∧ l.content = "\"" ++ inner ++ "\"" := by
  simp only [lexemes_ofSource] at h
  cases List.mem_append.mp h
  case inl h =>
    have ⟨text, hs, hc⟩ := spells_of_mem_lexemesBefore h
    simp only [hc, String.toList_ofList] at hn
    have ⟨inner, he, ht⟩ := hs.newline_cases hn
    exact ⟨_, ht, String.toList_inj.mp <| by simp [hc, he]⟩
  case inr h => simp [List.mem_singleton.mp h] at hn

theorem RuntimeErrorKind.not_isAt_literal (kind : RuntimeErrorKind) (value : Value) :
    ¬kind.IsAt (.literal value) := by
  cases kind <;> simp [IsAt]

namespace RuntimeError

variable {source : String} {e : RuntimeError}

theorem Of.newline_notMem_content (h : e.Of source) : '\n' ∉ e.lexeme.content.toList := by
  intro hn
  have ⟨inner, ht, _⟩ := Scan.exists_string_of_newline h.mem hn
  exact e.kind.not_isAt_literal _ <| ht ▸ h.isAt

theorem Of.newline_notMem_text (h : e.Of source) : '\n' ∉ e.text.toList := by
  have hc := h.newline_notMem_content
  simp only [text]
  cases e.kind <;> simp [hc]

end RuntimeError

theorem Location.newline_mem_content {l : Lexeme} (h : '\n' ∈ (of l).text.toList) :
    '\n' ∈ l.content.toList := by
  simp only [of] at h
  split at h
  case isTrue => simp [text] at h
  case isFalse => simpa [text] using h

namespace Message

theorem count_newline_text (m : Message) : m.text.toList.count '\n' =
    m.location.text.toList.count '\n' + m.content.toList.count '\n' := by
  have hd : '\n' ∉ Nat.toDigits 10 m.line := fun hm =>
    absurd (Nat.isDigit_of_mem_toDigits (by decide) (by decide) hm) (by decide)
  simp [text, List.count_append, List.count_eq_zero_of_not_mem hd]

theorem count_newline_bytes (m : Message) :
    m.bytes.count Segment.newline = m.text.toList.count '\n' + 1 := by
  simp [bytes, count_newline_encode]

theorem count_newline_flatMap_bytes {ms : List Message} (h : ∀ m ∈ ms, '\n' ∉ m.content.toList) :
    (ms.flatMap bytes).count Segment.newline =
      ms.length + (ms.flatMap (·.location.text.toList)).count '\n' := by
  induction ms
  case nil => rfl
  case cons m ms hi =>
    obtain ⟨hm, hs⟩ := List.forall_mem_cons.mp h
    simp only [List.flatMap_cons, List.count_append, hi hs, count_newline_bytes, count_newline_text,
      List.count_eq_zero_of_not_mem hm, List.length_cons]
    omega

end Message

namespace Session

variable {s t : Session} {source : String} {result : Except Failure Outcome} {m : Message}

def errorCount (source : String) : Outcome → Nat
  | .success      => 0
  | .staticError  => (Scan.ofSource source).errors.length +
      (Parsed.ofLexemes (Scan.ofSource source).lexemes).errors.length
  | .runtimeError => 1

theorem Ends.exists_messages (h : s.Ends source result t) (ho : s.machine.output.room = none)
    (he : s.errors.room = none) :
    ∃ (o : Outcome) (ms : List Message), result = .ok o ∧ ms.length = errorCount source o ∧
      t.errors = s.errors.append (ms.flatMap Message.bytes) ∧ ∀ m ∈ ms, s.Reports source m := by
  cases h
  case static hr =>
    simp only [Sink.report_of_unlimited he] at hr
    cases hr
    exact ⟨_, _, rfl, by simp [staticMessages, errorCount], rfl, fun m => .static⟩
  case done => exact ⟨_, [], rfl, rfl, Sink.append_nil.symm, by simp⟩
  case fault e _ _ _ _ hr hw =>
    simp only [Sink.writeLine_of_unlimited he] at hw
    cases hw
    exact ⟨_, [e.message], rfl, rfl, by simp, fun _ h => List.mem_singleton.mp h ▸ .runtime hr⟩
  case cut hi => exact absurd hi <| Stmt.interpret_ne_sinkFull ho _ _ _

theorem Reports.newline_notMem_content (h : s.Reports source m) : '\n' ∉ m.content.toList := by
  cases h
  case static h =>
    rcases isStatic_of_mem_staticMessages h with ⟨kind, hk⟩ | ⟨kind, hk⟩
    case inl => exact hk ▸ kind.newline_notMem_text
    case inr => exact hk ▸ kind.newline_notMem_text
  case runtime h => exact (of_interpret h).newline_notMem_text

theorem Reports.exists_string_of_newline (h : s.Reports source m)
    (hn : '\n' ∈ m.location.text.toList) :
    ∃ e ∈ (Parsed.ofLexemes (Scan.ofSource source).lexemes).errors, m = e.message ∧
      '\n' ∈ e.lexeme.content.toList ∧ ∃ inner : String,
        e.lexeme.token = .literal (.string inner) ∧ e.lexeme.content = "\"" ++ inner ++ "\"" := by
  cases h
  case static h =>
    simp only [staticMessages, List.mem_append, List.mem_map] at h
    rcases h with ⟨e, he, rfl⟩ | ⟨e, he, rfl⟩
    case inl => cases hn
    case inr =>
      have hc := Location.newline_mem_content hn
      exact ⟨e, he, rfl, hc, Scan.exists_string_of_newline (mem_lexemes_of_mem_errors he) hc⟩
  case runtime h =>
    exact absurd (Location.newline_mem_content hn) (of_interpret h).newline_notMem_content

-- All errors are reported, each in a message of its own, and a message is one line unless it quotes
-- a string of the source that goes over several lines. Only errors of the grammar are found at
-- strings.
theorem runs_reports_lines (ho : s.machine.output.room = none) (he : s.errors.room = none)
    (hr : s.Runs source result t) :
    ∃ (o : Outcome) (ms : List Message), result = .ok o ∧ ms.length = errorCount source o ∧
      t.errors = s.errors.append (ms.flatMap Message.bytes) ∧
      (∀ m ∈ ms, '\n' ∉ m.content.toList ∧
        m.text = "[line " ++ toString m.line ++ "] Error" ++ m.location.text ++ ": " ++ m.content) ∧
      (ms.flatMap Message.bytes).count Segment.newline =
        errorCount source o + (ms.flatMap (·.location.text.toList)).count '\n' ∧
      (∀ m ∈ ms, '\n' ∈ m.location.text.toList →
        ∃ e ∈ (Parsed.ofLexemes (Scan.ofSource source).lexemes).errors, m = e.message ∧
          ∃ inner : String, e.lexeme.token = .literal (.string inner) ∧
            e.lexeme.content = "\"" ++ inner ++ "\"") ∧
      ((∀ e ∈ (Parsed.ofLexemes (Scan.ofSource source).lexemes).errors,
          '\n' ∉ e.lexeme.content.toList) →
        (∀ m ∈ ms, '\n' ∉ m.text.toList) ∧
        (ms.flatMap Message.bytes).count Segment.newline = errorCount source o) := by
  obtain ⟨o, ms, hs, hl, ht, hm⟩ := (runs_iff.mp hr).exists_messages ho he
  have hc : ∀ m ∈ ms, '\n' ∉ m.content.toList := fun m h => (hm m h).newline_notMem_content
  have hb := hl ▸ Message.count_newline_flatMap_bytes hc
  refine ⟨o, ms, hs, hl, ht, fun m h => ⟨hc m h, rfl⟩, hb, fun m h hn => ?strings, fun hq => ?plain⟩
  case strings =>
    obtain ⟨e, he, hm, _, hi⟩ := (hm m h).exists_string_of_newline hn
    exact ⟨e, he, hm, hi⟩
  case plain =>
    -- Only a quoted string could bring a second line, and here no error is at such a string.
    have hn (m : Message) (h : m ∈ ms) : '\n' ∉ m.location.text.toList := fun hn => by
      obtain ⟨e, he, _, hi, _⟩ := (hm m h).exists_string_of_newline hn
      exact hq e he hi
    constructor
    case left =>
      intro m h
      rw [← List.count_eq_zero, m.count_newline_text, List.count_eq_zero_of_not_mem (hn m h),
        List.count_eq_zero_of_not_mem (hc m h)]
    case right =>
      have hz : '\n' ∉ ms.flatMap (·.location.text.toList) := by simpa using hn
      rw [hb, List.count_eq_zero_of_not_mem hz, Nat.add_zero]

theorem runs_reports_lines_of_two_errors :
    let s : Session := {}
    let source := "print 1 @;\nvar 2;"
    ∃ (t : Session) (ms : List Message), s.Runs source (.ok .staticError) t ∧ ms.length = 2 ∧
      t.errors = s.errors.append (ms.flatMap Message.bytes) ∧
      (ms.flatMap Message.bytes).count Segment.newline = 2 := by
  intro s source
  have he : (s.run 0 source).1 = .ok .staticError := by decide +kernel
  have hr : s.Runs source (.ok .staticError) _ := ⟨0, Prod.ext he rfl, by simp⟩
  have hc : errorCount source .staticError = 2 := by decide +kernel
  obtain ⟨o, ms, ho, hl, ht, _, _, _, hn⟩ := runs_reports_lines rfl rfl hr
  cases ho
  exact ⟨_, ms, hr, hl.trans hc, ht, (hn <| by decide +kernel).right.trans hc⟩

-- One error, but two lines, of which the second does not begin as messages do: the parser stops at
-- a string with a newline in it, and the message has this string as it stands in the source.
theorem one_error_on_two_lines :
    let s : Session := {}
    let source := "\"a\" \"\n\";"
    ∃ t, s.Runs source (.ok .staticError) t ∧ errorCount source .staticError = 1 ∧
      t.errors.taken.toList =
        Utf8.encode "[line 2] Error at '\"\n\"': Expect ';' after expression.\n".toList ∧
      t.errors.taken.toList.count Segment.newline = 2 := by
  intro s source
  have he : (s.run 0 source).1 = .ok .staticError := by decide +kernel
  exact ⟨_, ⟨0, Prod.ext he rfl, by simp⟩, by decide +kernel, by decide +kernel, by decide +kernel⟩

end Session
end Lox
