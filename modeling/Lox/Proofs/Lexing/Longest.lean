import Lox.Proofs.Lexing.Spelling

namespace Lox

open Segment (symbol? symbolEqual?)

-- No text of any token that can be taken from this place is longer. As tokens are told apart by
-- their first character, it is enough to show that what follows does not continue the text.
def IsLongest (text rest : List Char) : Prop :=
  ∀ text' token', Spells text' token' → text' <+: text ++ rest → text'.length ≤ text.length

variable {c : Char} {cs text rest : List Char}

theorem Spells.exists_of_prefix {token : Token} (h : Spells text token)
    (hp : text <+: c :: rest) : ∃ cs, text = c :: cs ∧ cs <+: rest := by
  obtain ⟨c', cs, rfl, _⟩ := h.exists_cons
  have ⟨hc, hp⟩ := List.cons_prefix_cons.mp hp
  exact ⟨cs, by rw [hc], hp⟩

theorem length_le_of_all {p : Char → Bool} (hl : ∀ c ∈ cs, p c) (hr : ∀ c ∈ rest.head?, p c = false)
    (ht : ∀ c ∈ text, p c) (hp : text <+: cs ++ rest) : text.length ≤ cs.length := by
  have ⟨more, he⟩ := hp
  have hw := congrArg (List.takeWhile p) he
  rw [takeWhile_append_of_stop hl hr, List.takeWhile_append_of_pos ht] at hw
  rw [← hw, List.length_append]
  exact Nat.le_add_right ..

theorem takeWhile_of_quote {inner : List Char} (h : '"' ∉ inner) :
    (inner ++ '"' :: rest).takeWhile (· != '"') = inner :=
  takeWhile_append_of_stop (fun _ hc => bne_iff_ne.mpr fun he => h <| he ▸ hc)
    fun c hc => by rw [← Option.mem_some.mp hc, bne_self_eq_false]

theorem isLongest_string {inner : List Char} (h : '"' ∉ inner) :
    IsLongest ('"' :: (inner ++ ['"'])) rest := by
  intro text token hs hp
  rw [List.cons_append] at hp
  obtain ⟨cs, rfl, more, he⟩ := hs.exists_of_prefix hp
  obtain ⟨inner', h', rfl, _⟩ := hs.string_cases
  have ht := congrArg (List.takeWhile (· != '"')) he
  simp only [List.append_assoc, List.cons_append, takeWhile_of_quote h, takeWhile_of_quote h'] at ht
  rw [ht]

theorem isLongest_word (h : IsWord text) (hr : ∀ c ∈ rest.head?, isLetterOrDigit c = false) :
    IsLongest text rest := by
  obtain ⟨c, cs, rfl, hl, hc⟩ := h.exists_cons
  intro text token hs hp
  obtain ⟨cs', rfl, hp'⟩ := hs.exists_of_prefix hp
  have ⟨_, _, he, _, hc'⟩ := (hs.word_cases hl).left.exists_cons
  cases he
  exact Nat.succ_le_succ <| length_le_of_all hc hr hc' hp'

section Number

variable {digits whole fraction : List Char}

theorem isDigit_point : ('.' : Char).isDigit = false :=
  rfl

theorem numeral_cases (hd : ∀ c ∈ digits, c.isDigit) (hr : ∀ c ∈ rest.head?, c.isDigit = false)
    (h : IsNumeral text) (hp : text <+: digits ++ rest) :
    text.length ≤ digits.length ∨ ∃ fraction, IsDigits fraction ∧
      text = digits ++ '.' :: fraction ∧ '.' :: fraction <+: rest := by
  cases h
  case whole h => exact .inl <| length_le_of_all hd hr h.right hp
  case fraction whole fraction hw hf =>
    have ⟨more, he⟩ := hp
    have ht := congrArg (List.takeWhile Char.isDigit) he
    have hs : ∀ c ∈ ('.' :: (fraction ++ more)).head?, c.isDigit = false := fun c hc => by
      rw [← Option.mem_some.mp hc, isDigit_point]
    rw [List.append_assoc, List.cons_append, takeWhile_append_of_stop hw.right hs,
      takeWhile_append_of_stop hd hr] at ht
    subst ht
    rw [List.append_assoc] at he
    exact .inr ⟨fraction, hf, rfl, more, List.append_cancel_left he⟩

theorem isLongest_whole (hd : IsDigits digits) (hr : ∀ c ∈ rest.head?, c.isDigit = false)
    (hf : ∀ c cs, rest = '.' :: c :: cs → c.isDigit = false) : IsLongest digits rest := by
  obtain ⟨c, cs, rfl, hc⟩ := hd.exists_cons
  intro text token hs hp
  obtain ⟨cs', rfl, _⟩ := hs.exists_of_prefix hp
  rcases numeral_cases hd.right hr (hs.number_cases hc).left hp with h | ⟨fraction, h, _, more, he⟩
  case inl => exact h
  case inr =>
    obtain ⟨c', cs', rfl, hc'⟩ := h.exists_cons
    rw [hf c' (cs' ++ more) he.symm] at hc'
    contradiction

theorem isLongest_fraction (hw : IsDigits whole) (hf : IsDigits fraction)
    (hr : ∀ c ∈ rest.head?, c.isDigit = false) : IsLongest (whole ++ '.' :: fraction) rest := by
  obtain ⟨c, cs, rfl, hc⟩ := hw.exists_cons
  intro text token hs hp
  rw [List.append_assoc] at hp
  obtain ⟨cs', rfl, _⟩ := hs.exists_of_prefix hp
  have hs' : ∀ c ∈ ('.' :: fraction ++ rest).head?, c.isDigit = false := fun c hc => by
    rw [← Option.mem_some.mp hc, isDigit_point]
  rcases numeral_cases hw.right hs' (hs.number_cases hc).left hp with h | ⟨fraction', h, he, hp'⟩
  case inl => exact h.trans <| by simp
  case inr =>
    have hl := length_le_of_all hf.right hr h.right (List.cons_prefix_cons.mp hp').right
    rw [he, List.length_append, List.length_append]
    exact Nat.add_le_add_left (Nat.succ_le_succ hl) _

end Number

theorem isLongest_symbol {token : Token} (h : symbol? c = some token)
    (hr : (symbolEqual? c).isSome → rest.head? ≠ some '=') : IsLongest [c] rest := by
  intro text token' hs hp
  obtain ⟨cs, rfl, hp'⟩ := hs.exists_of_prefix hp
  have ⟨_, _, hq, hd, hl⟩ := symbol?_cases h
  rcases lookup_symbols_cases (hs.symbol_cases hq hd hl) with ⟨_, he, _⟩ | ⟨_, he, hs'⟩
  all_goals cases he
  case inl => exact Nat.le_refl _
  case inr =>
    have ⟨more, (he : '=' :: more = rest)⟩ := hp'
    exact absurd (by rw [← he]; rfl) <| hr <| by rw [hs']; rfl

theorem isLongest_symbolEqual {token : Token} (h : symbolEqual? c = some token) :
    IsLongest [c, '='] rest := by
  intro text token' hs hp
  obtain ⟨cs, rfl, _⟩ := hs.exists_of_prefix hp
  have ⟨_, h⟩ := Option.isSome_iff_exists.mp (symbolEqual?_cases h).right
  have ⟨_, _, hq, hd, hl⟩ := symbol?_cases h
  rcases lookup_symbols_cases (hs.symbol_cases hq hd hl) with ⟨_, he, _⟩ | ⟨_, he, _⟩
  all_goals cases he
  case inl => exact Nat.le_succ _
  case inr => exact Nat.le_refl _

end Lox
