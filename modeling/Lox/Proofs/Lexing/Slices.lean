import Lox.Proofs.Lexing.Forms

namespace Lox.Scanner

open Segment (char quote isBlank isDigit isWordStart symbol? cut)
open Utf8 (encode slice?)

variable {text : List Char} {b : UInt8}

theorem stray_of_not_lt (hb : ¬b.toNat < 0x80) : ¬isBlank b ∧ ¬b == quote ∧ ¬isDigit b ∧
    ¬isWordStart b ∧ symbol? (char b) = none := by
  refine ⟨fun h => hb ?_, fun h => hb ?_, hb ∘ lt_of_isDigit, hb ∘ lt_of_isLetter,
    Option.eq_none_iff_forall_not_mem.mpr fun token h => ?_⟩
  case refine_1 =>
    have hc := Piece.char_of_mem_blanks <| Segment.isBlank_iff.mp h
    simp only [List.mem_cons, List.not_mem_nil, or_false] at hc
    change (char b).toNat < 0x80
    rcases hc with hc | hc | hc | hc <;> rw [hc] <;> decide
  case refine_2 =>
    rw [beq_iff_eq.mp h]
    decide
  case refine_3 => exact hb (symbol?_cases h).right.left

-- A scanner may stand inside of a character, but not where it sees an ASCII byte. So wherever it
-- begins to cut, there is a text before it and a text behind.
theorem exists_behind {s : Scanner} (hp : s.peek? (encode text) = some b) (hb : b.toNat < 0x80) :
    ∃ before cs, text = before ++ char b :: cs ∧ s = behind before s.line s.ended := by
  have hp' : (encode text)[s.position]? = some b := hp
  have hi : Utf8.isBoundary (encode text) s.position := by
    have hn : Utf8.isContinuation b = false := by
      rw [Utf8.isContinuation, Bool.and_eq_false_iff]
      exact .inl <| decide_eq_false <| Nat.not_le.mpr hb
    rw [Utf8.isBoundary, hp']
    simp only [hn, Bool.not_false, Bool.or_true]
  obtain ⟨before, after, ht, hl⟩ := Utf8.exists_of_isBoundary hi
  have hs : s = behind before s.line s.ended := by rw [behind, ← hl]
  subst ht
  rw [hs, peek?_behind] at hp
  obtain ⟨cs, hc⟩ := (Segment.getElem?_zero_encode_iff (d := char b) hb rfl).mp hp
  exact ⟨before, cs, by rw [hc], hs⟩

theorem step?_eq {s : Scanner} (hp : s.peek? (encode text) = some b) :
    step? (encode text) s.position b s.advance =
      some (s.answer (cut b ((encode text).drop (s.position + 1))).1) := by
  by_cases hb : b.toNat < 0x80
  case pos =>
    obtain ⟨before, cs, rfl, hs⟩ := exists_behind hp hb
    have hd : (encode (before ++ char b :: cs)).drop ((encode before).length + 1) = encode cs := by
      rw [Utf8.encode_append, ← List.drop_drop, List.drop_left, Utf8.encode_char_cons hb]
      rfl
    rw [hs, advance_behind hb]
    exact (step?_of_lt before cs _ _ hb).trans <| hd ▸ rfl
  case neg =>
    have ⟨hn, hq, hd, hl, hs⟩ := stray_of_not_lt hb
    rw [step?_of_stray hn hq hd hl hs, answer_of_stray hn hq hd hl hs]
    rfl

theorem step?_of_slice? {s : Scanner} (hp : s.peek? (encode text) = some b)
    (hv : slice? (encode text) s.position s.advance.position = none) :
    step? (encode text) s.position b s.advance =
      some (some <| s.error .unexpectedCharacter, s.advance) := by
  have hb : ¬b.toNat < 0x80 := fun hb => by
    obtain ⟨before, cs, rfl, hs⟩ := exists_behind hp hb
    have hc := slice?_behind before [char b] cs s.line s.ended
    rw [List.append_assoc, List.singleton_append, ← advance_behind hb, ← hs] at hc
    have hl : s.position = (encode before).length := congrArg position hs
    rw [← hl, hv] at hc
    contradiction
  have ⟨hn, hq, hd, hl, hs⟩ := stray_of_not_lt hb
  exact step?_of_stray hn hq hd hl hs ..

theorem numeral?_of_isDigit {s : Scanner} (hp : s.peek? (encode text) = some b) (h : isDigit b) :
    ∃ content s', numeral? (encode text) s.position s.advance = some (String.ofList content, s') ∧
      IsNumeral content := by
  have hb : b.toNat < 0x80 := lt_of_isDigit h
  obtain ⟨before, cs, rfl, hs⟩ := exists_behind hp hb
  have ⟨content, hn, _, hc⟩ := numeral?_eq before cs s.line s.ended h
  rw [← advance_behind hb, ← hs] at hc
  have hl : s.position = (encode before).length := congrArg position hs
  exact ⟨content, _, hl ▸ hc, hn⟩

section Progress

variable {bytes : List UInt8} {s : Scanner}

theorem drop_of_peek? (hp : s.peek? bytes = some b) :
    bytes.drop s.position = b :: bytes.drop (s.position + 1) := by
  have ⟨hl, hb⟩ := List.getElem?_eq_some_iff.mp hp
  rw [List.drop_eq_getElem_cons hl, hb]

theorem drop_after (hp : s.peek? bytes = some b) :
    let first := cut b (bytes.drop (s.position + 1))
    bytes.drop (s.after first.1).position = first.2 := by
  intro first
  have hc := Segment.cut_bytes b (bytes.drop (s.position + 1))
  rw [← drop_of_peek? hp] at hc
  rw [after, ← List.drop_drop, ← hc, List.drop_left]

theorem cursor_of_peek? (hp : s.peek? bytes = some b) :
    let first := (cut b (bytes.drop (s.position + 1))).1
    (s.cursor bytes).rest = first :: ((s.after first).cursor bytes).rest := by
  intro first
  rw [cursor, cursor, drop_after hp, drop_of_peek? hp, Segment.ofBytes_cons]

theorem lt_position_after (b : UInt8) (more : List UInt8) (s : Scanner) :
    s.position < (s.after (cut b more).1).position :=
  Nat.lt_add_of_pos_right <| List.length_pos_iff.mpr <| Segment.cut_bytes_ne_nil b more

end Progress

theorem round?_eq {s : Scanner} (he : s.ended = false) (hp : s.peek? (encode text) = some b) :
    let first := (cut b ((encode text).drop (s.position + 1))).1
    round? (encode text) s = some (match first.item? (s.line + first.newlines) with
      | some item => .inl (some item, s.after first)
      | none      => .inr (s.after first)) := by
  intro first
  rw [round?, if_neg (ne_true_of_eq_false he), hp]
  dsimp only
  rw [step?_eq hp, answer, Option.bind_eq_bind, Option.bind_some]
  cases first.item? (s.line + first.newlines) <;> rfl

theorem exists_finds (text : List Char) (s : Scanner) :
    ∃ item? s', Finds (encode text) s item? s' ∧
      (s.cursor (encode text)).next = (item?, s'.cursor (encode text)) := by
  -- Each segment leaves fewer bytes.
  induction hl : (encode text).length - s.position using Nat.strongRecOn generalizing s
  case ind hind =>
    subst hl
    cases he : s.ended
    case true => exact ⟨none, s, .done <| if_pos he, if_pos he⟩
    case false =>
    have he' : ¬s.ended = true := ne_true_of_eq_false he
    have hg : (s.cursor (encode text)).next =
        Cursor.next.go s.line (s.cursor (encode text)).rest := if_neg he'
    cases hp : s.peek? (encode text)
    case none =>
      have hd : (encode text).drop s.position = [] :=
        List.drop_eq_nil_of_le <| List.getElem?_eq_none_iff.mp hp
      refine ⟨_, _, .done <| (if_neg he').trans <| by rw [hp], ?_⟩
      rw [hg, cursor, cursor, hd, Segment.ofBytes_nil]
      rfl
    case some b =>
      have hr := round?_eq he hp
      have hlt := lt_position_after b ((encode text).drop (s.position + 1)) s
      rw [cursor_of_peek? hp] at hg
      generalize (cut b ((encode text).drop (s.position + 1))).1 = first at hr hg hlt
      dsimp only at hr
      cases hi : first.item? (s.line + first.newlines)
      case some item =>
        rw [hi] at hr
        refine ⟨_, _, .done hr, ?_⟩
        rw [hg, Cursor.next.go, hi, cursor, after, he]
      case none =>
        rw [hi] at hr
        have hb := (List.getElem?_eq_some_iff.mp hp).1
        obtain ⟨item?, s', hf, hc⟩ := hind _ (by omega) (s.after first) rfl
        refine ⟨_, _, .more hr hf, ?_⟩
        rw [hg, Cursor.next.go, hi, ← hc]
        exact (if_neg he').symm

theorem Finds.unique {bytes : List UInt8} {s s₁ s₂ : Scanner} {item₁ item₂ : Option Item}
    (h : Finds bytes s item₁ s₁) (h' : Finds bytes s item₂ s₂) : item₁ = item₂ ∧ s₁ = s₂ := by
  induction h
  case done h =>
    cases h'
    case done h' =>
      cases h.symm.trans h'
      exact ⟨rfl, rfl⟩
    case more h' _ => cases h.symm.trans h'
  case more h _ hi =>
    cases h'
    case done h' => cases h.symm.trans h'
    case more h' hf =>
      cases h.symm.trans h'
      exact hi hf

-- However the scanner came to its place among the bytes of a source, it does not crash there, and
-- goes on as the segments do. Whatever it takes out of the source has been cut out between two
-- characters. A byte that is reported is the only one that has no text, and whatever is read as a
-- number is a numeral.
theorem cuts_between_characters (source : String) (s : Scanner) :
    let bytes := encode source.toList
    (∃ item? s', (∀ found t, Finds bytes s found t ↔ found = item? ∧ t = s') ∧
      (s.cursor bytes).next = (item?, s'.cursor bytes)) ∧
    ({} : Scanner).cursor bytes = Cursor.ofSource source ∧
    (∀ b, s.peek? bytes = some b →
      (∃ item? s', step? bytes s.position b s.advance = some (item?, s')) ∧
      (slice? bytes s.position s.advance.position = none →
        step? bytes s.position b s.advance =
          some (some <| s.error .unexpectedCharacter, s.advance)) ∧
      (isDigit b → ∃ content s' x, numeral? bytes s.position s.advance = some (content, s') ∧
        IsNumeral content.toList ∧ Numeral.read? content.toList = some x)) ∧
    ∀ start stop content, slice? bytes start stop = some content ↔ ∃ before after,
      source.toList = before ++ content.toList ++ after ∧ start = (encode before).length ∧
        stop = (encode before).length + (encode content.toList).length := by
  intro bytes
  refine ⟨?_, rfl, fun b hp => ⟨?_, step?_of_slice? hp, fun hd => ?_⟩, fun start stop content =>
    Utf8.slice?_eq_some_iff⟩
  case refine_1 =>
    have ⟨item?, s', hf, hc⟩ := exists_finds source.toList s
    refine ⟨item?, s', fun found t => ⟨fun h => h.unique hf, fun h => ?_⟩, hc⟩
    rw [h.left, h.right]
    exact hf
  case refine_2 => exact ⟨_, _, step?_eq hp⟩
  case refine_3 =>
    have ⟨content, s', hc, hn⟩ := numeral?_of_isDigit hp hd
    have ⟨_, _, hx⟩ := hn.exists_read?
    exact ⟨_, s', _, hc, by rwa [String.toList_ofList], by rw [String.toList_ofList, hx]⟩

end Lox.Scanner
