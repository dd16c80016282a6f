import Lox.Proofs.Session.Provenance

namespace Lox

namespace Message

def IsStatic (m : Message) : Prop :=
  (∃ kind : ScanErrorKind, m.content = kind.text) ∨ ∃ kind : ParseErrorKind, m.content = kind.text

theorem bytes_ne_nil (m : Message) : m.bytes ≠ [] := by
  intro h
  have he : (m.text ++ "\n").toList = [] := Utf8.encode_injective h
  simp at he

theorem exists_toList_eq (m : Message) :
    ∃ before, (m.text ++ "\n").toList = before ++ m.content.toList ++ ['\n'] :=
  ⟨("[line " ++ String.ofList (Nat.toDigits 10 m.line) ++ "] Error" ++ m.location.text ++ ": ").toList,
    by simp [text]⟩

theorem flatMap_bytes (ms : List Message) :
    ms.flatMap bytes = Utf8.encode (ms.flatMap fun m => (m.text ++ "\n").toList) :=
  List.flatMap_assoc.symm

theorem exists_append_eq {ms : List Message} {m m' : Message}
    (h : (ms ++ [m]).flatMap bytes = m'.bytes) :
    ∃ before before', before ++ m.content.toList = before' ++ m'.content.toList := by
  have ⟨before, he⟩ := m.exists_toList_eq
  have ⟨before', he'⟩ := m'.exists_toList_eq
  have h := Utf8.encode_injective <| (flatMap_bytes _).symm.trans h
  simp only [List.flatMap_append, List.flatMap_cons, List.flatMap_nil, List.append_nil, he, he',
    ← List.append_assoc] at h
  exact ⟨_, _, List.append_cancel_right h⟩

end Message

def ending (n : Nat) (text : List Char) : List Char :=
  text.reverse.take n

theorem ending_append {n : Nat} (before : List Char) {text : List Char} (h : n ≤ text.length) :
    ending n (before ++ text) = ending n text := by
  simp [ending, List.take_append_of_le_length, h]

theorem ending_eq {n : Nat} {before before' text text' : List Char}
    (h : before ++ text = before' ++ text') (hl : n ≤ text.length) (hl' : n ≤ text'.length) :
    ending n text = ending n text' :=
  (ending_append before hl).symm.trans <| h ▸ ending_append before' hl'

theorem eq_of_quoted {before before' text text' : List Char} (ht : '\'' ∉ text) (ht' : '\'' ∉ text')
    (h : before ++ '\'' :: text = before' ++ '\'' :: text') : before = before' ∧ text = text' := by
  have hn {text text' more : List Char} (ht : '\'' ∉ text)
      (h : '\'' :: text = more ++ '\'' :: text') : more = [] := by
    cases more
    case nil => rfl
    case cons c more =>
      have h := List.tail_eq_of_cons_eq h
      simp [h] at ht
  rcases List.append_eq_append_iff.mp h with ⟨more, hb, hm⟩ | ⟨more, hb, hm⟩
  case inl =>
    cases hn ht hm
    exact ⟨by simp [hb], List.tail_eq_of_cons_eq hm⟩
  case inr =>
    cases hn ht' hm
    exact ⟨by simp [hb], (List.tail_eq_of_cons_eq hm).symm⟩

def fixedTexts : List String :=
  ["Operand must be a number.", "Operands must be numbers.",
    "Operands must be two numbers or two strings."]

theorem ScanErrorKind.ending_text (kind : ScanErrorKind) :
    5 ≤ kind.text.toList.length ∧
      (∀ t ∈ fixedTexts, ending 5 kind.text.toList ≠ ending 5 t.toList) ∧
      ending 2 kind.text.toList ≠ ['.', '\''] := by
  cases kind <;> decide

theorem ParseErrorKind.ending_text (kind : ParseErrorKind) :
    5 ≤ kind.text.toList.length ∧
      (∀ t ∈ fixedTexts, ending 5 kind.text.toList ≠ ending 5 t.toList) ∧
      (ending 2 kind.text.toList = ['.', '\''] → ∃ word ∈ ["if", "while"],
        kind.text.toList = "Expect '(' after ".toList ++ '\'' :: word.toList ++ "'.".toList) := by
  cases kind <;> decide

namespace Message

-- What the text of an error that is found without running can be, so far as it takes to tell it
-- from that of an error of a run. The last five characters are enough, unless the text ends in a
-- quoted word, and then the words before it are.
theorem IsStatic.ending_content {m : Message} (h : m.IsStatic) :
    5 ≤ m.content.toList.length ∧
      (∀ t ∈ fixedTexts, ending 5 m.content.toList ≠ ending 5 t.toList) ∧
      (ending 2 m.content.toList = ['.', '\''] → ∃ word ∈ ["if", "while"],
        m.content.toList = "Expect '(' after ".toList ++ '\'' :: word.toList ++ "'.".toList) := by
  rcases h with ⟨kind, hk⟩ | ⟨kind, hk⟩
  case inl =>
    have ⟨hl, hf, hq⟩ := kind.ending_text
    exact hk ▸ ⟨hl, hf, fun h => absurd h hq⟩
  case inr => exact hk ▸ kind.ending_text

variable {m : Message} {before before' : List Char}

theorem IsStatic.append_fixed_ne (h : m.IsStatic) {t : String} (ht : t ∈ fixedTexts) :
    before ++ m.content.toList ≠ before' ++ t.toList := by
  have ⟨hl, hf, _⟩ := h.ending_content
  have hl' : ∀ t ∈ fixedTexts, 5 ≤ t.toList.length := by decide
  exact fun he => hf t ht <| ending_eq he hl (hl' t ht)

theorem IsStatic.append_undefined_ne (h : m.IsStatic) {name : String} (hn : '\'' ∉ name.toList) :
    before ++ m.content.toList ≠
      before' ++ ("Undefined variable '" ++ name ++ "'.").toList := by
  have ⟨hl, _, hq⟩ := h.ending_content
  intro he
  have ht : ("Undefined variable '" ++ name ++ "'.").toList =
      "Undefined variable ".toList ++ '\'' :: name.toList ++ "'.".toList := by
    simp
  simp only [ht, ← List.append_assoc] at he
  have hend : ending 2 m.content.toList = ['.', '\''] :=
    (ending_eq he (Nat.le_trans (by decide) hl) (by decide)).trans (by decide)
  have ⟨word, hw, hc⟩ := hq hend
  have hw' : ∀ word ∈ ["if", "while"], '\'' ∉ word.toList := by decide
  simp only [hc, ← List.append_assoc] at he
  have ⟨hb, _⟩ := eq_of_quoted (hw' word hw) hn <| List.append_cancel_right he
  exact absurd (ending_eq hb (n := 2) (by decide) (by decide)) (by decide)

end Message

theorem RuntimeError.Of.not_mem_content {source : String} {e : RuntimeError} (h : e.Of source)
    (hk : e.kind = .undefinedVariable) : '\'' ∉ e.lexeme.content.toList := by
  have ⟨hm, ht⟩ := h
  simp only [hk] at ht
  have ⟨name, ht⟩ := ht
  simp only [Scan.lexemes_ofSource] at hm
  cases List.mem_append.mp hm
  case inr hm =>
    simp [List.mem_singleton.mp hm] at ht
  case inl hm =>
    have ⟨text, hs, hc⟩ := Scan.spells_of_mem_lexemesBefore hm
    have ⟨c, cs, he, hl, hd⟩ := (ht ▸ hs).identifier_cases.left.exists_cons
    simp only [hc, he, String.toList_ofList]
    intro hq
    cases List.mem_cons.mp hq
    case inl hq =>
      subst hq
      contradiction
    case inr hq => exact absurd (hd _ hq) (by decide)

theorem Message.IsStatic.append_text_ne {m : Message} (h : m.IsStatic) {source : String}
    {e : RuntimeError} (he : e.Of source) (before before' : List Char) :
    before ++ m.content.toList ≠ before' ++ e.text.toList := by
  simp only [RuntimeError.text]
  cases hk : e.kind
  case undefinedVariable => exact h.append_undefined_ne <| he.not_mem_content hk
  all_goals exact h.append_fixed_ne <| by simp [fixedTexts]

theorem Message.flatMap_bytes_ne {ms : List Message} (hs : ∀ m ∈ ms, m.IsStatic) {source : String}
    {e : RuntimeError} (he : e.Of source) : ms.flatMap bytes ≠ e.message.bytes := by
  cases List.eq_nil_or_concat' ms
  case inl hn => exact hn ▸ fun h => e.message.bytes_ne_nil h.symm
  case inr hl =>
    have ⟨before, m, hl⟩ := hl
    subst hl
    intro h
    have ⟨_, _, h⟩ := exists_append_eq h
    exact (hs m <| by simp).append_text_ne he _ _ h

theorem Session.isStatic_of_mem_staticMessages {source : String} {m : Message}
    (h : m ∈ staticMessages source) : m.IsStatic := by
  simp only [staticMessages, List.mem_append, List.mem_map] at h
  rcases h with ⟨e, _, rfl⟩ | ⟨e, _, rfl⟩
  case inl => exact .inl ⟨e.kind, rfl⟩
  case inr => exact .inr ⟨e.kind, rfl⟩

end Lox
