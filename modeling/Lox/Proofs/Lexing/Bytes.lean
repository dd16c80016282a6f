import Lox.Lexeme.Scan
import Lox.Text.Utf8.Lemmas

namespace Lox.Utf8

theorem encode_cons (c : Char) (cs : List Char) :
    encode (c :: cs) = String.utf8EncodeChar c ++ encode cs :=
  List.flatMap_cons ..

theorem encode_append (text text' : List Char) :
    encode (text ++ text') = encode text ++ encode text' :=
  List.flatMap_append ..

theorem decode_encode_append (text : List Char) (bytes : List UInt8) :
    decode (encode text ++ bytes) = text.map some ++ decode bytes := by
  induction text
  case nil => rfl
  case cons c cs hi =>
    rw [encode_cons, List.append_assoc]
    exact (decodeFrom_utf8EncodeChar c _).trans (congrArg _ hi)

theorem encode_prefix_iff {text text' : List Char} :
    encode text <+: encode text' ↔ text <+: text' := by
  constructor
  case mp =>
    intro ⟨bytes, h⟩
    have hd := congrArg (fun bytes => (decode bytes).filterMap id) h
    simp only [decode_encode_append, decode_encode, List.filterMap_append, List.filterMap_map,
      Function.comp_def, id, List.filterMap_some] at hd
    exact ⟨_, hd⟩
  case mpr =>
    intro ⟨more, h⟩
    rw [← h, encode_append]
    exact List.prefix_append ..

theorem encode_injective {text text' : List Char} (h : encode text = encode text') :
    text = text' := by
  have hp : text <+: text' := encode_prefix_iff.mp <| h ▸ List.prefix_rfl
  have hp' : text' <+: text := encode_prefix_iff.mp <| h ▸ List.prefix_rfl
  exact hp.eq_of_length_le hp'.length_le

section Ascii

open Segment (char)

theorem char_injective {b b' : UInt8} (h : char b = char b') : b = b' :=
  UInt8.toNat_inj.mp <| congrArg Char.toNat h

theorem utf8EncodeChar_of_lt {c : Char} (h : c.toNat < 0x80) :
    ∃ b : UInt8, char b = c ∧ String.utf8EncodeChar c = [b] := by
  refine ⟨UInt8.ofNat c.toNat, Char.toNat_inj.mp ?_, ?_⟩
  case refine_1 => exact toNat_ofNat_of_lt (by omega)
  case refine_2 =>
    unfold String.utf8EncodeChar
    exact if_pos (Nat.le_of_lt_succ h)

theorem le_of_mem_utf8EncodeChar {c : Char} {b : UInt8} (h : 0x80 ≤ c.toNat)
    (hb : b ∈ String.utf8EncodeChar c) : 0x80 ≤ b.toNat := by
  have hc : c.val.toNat = c.toNat := rfl
  unfold String.utf8EncodeChar at hb
  simp only [hc] at hb
  rw [if_neg (by omega)] at hb
  -- Bytes of a character that has several are its bits behind a mark that is not below.
  have hm {n mark : Nat} (hl : n + mark < 256) (hm : 0x80 ≤ mark) :
      0x80 ≤ (UInt8.ofNat (n + mark)).toNat := by
    rw [toNat_ofNat_of_lt hl]
    omega
  split at hb
  case isTrue =>
    simp only [List.mem_cons, List.not_mem_nil, or_false] at hb
    rcases hb with rfl | rfl <;> exact hm (by omega) (by omega)
  case isFalse =>
    split at hb
    all_goals simp only [List.mem_cons, List.not_mem_nil, or_false] at hb
    case isTrue => rcases hb with rfl | rfl | rfl <;> exact hm (by omega) (by omega)
    case isFalse => rcases hb with rfl | rfl | rfl | rfl <;> exact hm (by omega) (by omega)

theorem char_of_mem_utf8EncodeChar {c : Char} {b : UInt8} (h : b.toNat < 0x80)
    (hb : b ∈ String.utf8EncodeChar c) : String.utf8EncodeChar c = [b] ∧ char b = c := by
  by_cases hc : c.toNat < 0x80
  case pos =>
    have ⟨b', hb', he⟩ := utf8EncodeChar_of_lt hc
    rw [he] at hb ⊢
    cases List.mem_singleton.mp hb
    exact ⟨rfl, hb'⟩
  case neg => exact absurd h <| Nat.not_lt.mpr <| le_of_mem_utf8EncodeChar (Nat.not_lt.mp hc) hb

theorem encode_char_cons {b : UInt8} (h : b.toNat < 0x80) (cs : List Char) :
    encode (char b :: cs) = b :: encode cs := by
  have ⟨b', hb, he⟩ := utf8EncodeChar_of_lt (c := char b) h
  rw [encode_cons, he, char_injective hb]
  rfl

theorem map_char_encode {text : List Char} (h : ∀ c ∈ text, c.toNat < 0x80) :
    (encode text).map char = text := by
  induction text
  case nil => rfl
  case cons c cs hi =>
    have ⟨hc, hs⟩ := List.forall_mem_cons.mp h
    have ⟨b, hb, he⟩ := utf8EncodeChar_of_lt hc
    rw [encode_cons, he, List.map_append, hi hs, List.map_singleton, hb]
    rfl

variable {q : Char → Bool} {v : Bool}

-- A test that is the same for all characters that are not ASCII can be made on bytes: an ASCII
-- character is its one byte, and no byte of another character is an ASCII character. So a text can
-- be taken apart at ASCII characters without decoding it.
theorem test_char (hq : ∀ c : Char, 0x80 ≤ c.toNat → q c = v) {c : Char} {b : UInt8}
    (hb : b ∈ String.utf8EncodeChar c) : q (char b) = q c := by
  by_cases hc : c.toNat < 0x80
  case pos =>
    have ⟨b', hb', he⟩ := utf8EncodeChar_of_lt hc
    rw [he] at hb
    rw [List.mem_singleton.mp hb, hb']
  case neg =>
    have hc := Nat.not_lt.mp hc
    rw [hq c hc, hq (char b) <| le_of_mem_utf8EncodeChar hc hb]

theorem exists_encode_cons (hq : ∀ c : Char, 0x80 ≤ c.toNat → q c = v) (c : Char)
    (cs : List Char) : ∃ b bytes, encode (c :: cs) = b :: bytes ∧ q (char b) = q c := by
  cases hb : String.utf8EncodeChar c
  case nil => exact absurd hb String.utf8EncodeChar_ne_nil
  case cons b bytes =>
    exact ⟨b, bytes ++ encode cs, by rw [encode_cons, hb]; rfl,
      test_char hq <| hb ▸ List.mem_cons_self⟩

theorem takeWhile_encode (hq : ∀ c : Char, 0x80 ≤ c.toNat → q c = v) (text : List Char) :
    (encode text).takeWhile (fun b => q (char b)) = encode (text.takeWhile q) := by
  induction text
  case nil => rfl
  case cons c cs hi =>
    rw [encode_cons, List.takeWhile_cons]
    split
    case isTrue hc =>
      rw [List.takeWhile_append_of_pos, hi, encode_cons]
      exact fun b hb => (test_char hq hb).trans hc
    case isFalse hc =>
      have ⟨b, bytes, he, ht⟩ := exists_encode_cons hq c cs
      rw [← encode_cons, he, List.takeWhile_cons, if_neg (ht ▸ hc)]
      rfl

theorem dropWhile_encode (hq : ∀ c : Char, 0x80 ≤ c.toNat → q c = v) (text : List Char) :
    (encode text).dropWhile (fun b => q (char b)) = encode (text.dropWhile q) := by
  have ht := List.takeWhile_append_dropWhile (p := fun b => q (char b)) (l := encode text)
  rw [takeWhile_encode hq] at ht
  have hc := congrArg encode <| List.takeWhile_append_dropWhile (p := q) (l := text)
  rw [encode_append] at hc
  exact List.append_cancel_left <| ht.trans hc.symm

-- Bytes that end a text. They may begin inside of a character, as they do behind a stray byte, but
-- never behind an ASCII one.
def EndsText (bytes : List UInt8) : Prop :=
  ∃ text, bytes <:+ encode text

theorem endsText_encode (text : List Char) : EndsText (encode text) :=
  ⟨text, List.suffix_rfl⟩

theorem EndsText.of_append {bytes bytes' : List UInt8} (h : EndsText (bytes ++ bytes')) :
    EndsText bytes' := by
  have ⟨text, hs⟩ := h
  exact ⟨text, (List.suffix_append ..).trans hs⟩

theorem EndsText.exists_text {b : UInt8} {bytes : List UInt8} (h : EndsText (b :: bytes))
    (hb : b.toNat < 0x80) :
    ∃ cs, bytes = encode cs ∧ b :: bytes = encode (char b :: cs) := by
  obtain ⟨text, before, hs⟩ := h
  induction text generalizing before
  case nil =>
    have hl := congrArg List.length hs
    simp [encode] at hl
  case cons c cs hi =>
    rw [encode_cons] at hs
    rcases List.append_eq_append_iff.mp hs with ⟨part, hc, he⟩ | ⟨part, _, he⟩
    case inl =>
      cases part
      case nil => exact hi [] he
      case cons b' part =>
        cases List.head_eq_of_cons_eq he
        -- The byte is one of this character, and a byte below 0x80 is all that its character has.
        have hm : b ∈ String.utf8EncodeChar c := hc ▸ List.mem_append_right _ List.mem_cons_self
        obtain ⟨hu, hb'⟩ := char_of_mem_utf8EncodeChar hb hm
        have hp : part = [] := by
          have hl := congrArg List.length (hu.symm.trans hc)
          simp only [List.length_append, List.length_cons, List.length_nil] at hl
          exact List.length_eq_zero_iff.mp (by omega)
        subst hp
        have he : bytes = encode cs := List.tail_eq_of_cons_eq he
        refine ⟨cs, he, ?_⟩
        rw [he, encode_cons, hb', hu]
        rfl
    case inr => exact hi part he.symm

end Ascii
end Lox.Utf8
