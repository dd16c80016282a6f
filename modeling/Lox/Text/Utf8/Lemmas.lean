import Lox.Text.Utf8.Basic

namespace Lox.Utf8

theorem toNat_ofNat_of_lt {n : Nat} (h : n < 256) : (UInt8.ofNat n).toNat = n := by
  rw [UInt8.toNat_ofNat', Nat.mod_eq_of_lt h]

theorem Begun.accepts_of_le {u : Begun} {byte : UInt8} (hl : u.least ≤ byte.toNat)
    (hg : byte.toNat ≤ u.greatest) : u.accepts byte := by
  simp [Begun.accepts, hl, hg]

theorem begun_congr {v₁ v₂ missing least greatest : Nat} (h : v₁ = v₂) :
    Start.begun ⟨v₁, missing, least, greatest⟩ = .begun ⟨v₂, missing, least, greatest⟩ := by
  rw [h]

theorem decodeFrom_whole {byte : UInt8} {c : Char} (bytes : List UInt8)
    (h : start byte = .whole c) :
    decodeFrom none (byte :: bytes) = some c :: decodeFrom none bytes := by
  simp [decodeFrom, h, Start.entries, Start.pending]

theorem decodeFrom_begun {byte : UInt8} {u : Begun} (bytes : List UInt8)
    (h : start byte = .begun u) : decodeFrom none (byte :: bytes) = decodeFrom (some u) bytes := by
  simp [decodeFrom, h, Start.entries, Start.pending]

theorem decodeFrom_last {u : Begun} {byte : UInt8} {c : Char} (bytes : List UInt8)
    (hm : u.missing = 1) (hl : u.least ≤ byte.toNat) (hg : byte.toNat ≤ u.greatest)
    (hc : u.value * 64 + (byte.toNat - 0x80) = c.toNat) :
    decodeFrom (some u) (byte :: bytes) = some c :: decodeFrom none bytes := by
  have he : u.extend byte = .whole c := by
    unfold Begun.extend
    rw [if_pos (by omega), hc, Char.ofNat_toNat]
  simp [decodeFrom, Begun.accepts_of_le hl hg, he, Start.entries, Start.pending]

theorem decodeFrom_more {u : Begun} {byte : UInt8} (bytes : List UInt8)
    (hm : 1 < u.missing) (hl : u.least ≤ byte.toNat) (hg : byte.toNat ≤ u.greatest) :
    decodeFrom (some u) (byte :: bytes) =
      decodeFrom (some ⟨u.value * 64 + (byte.toNat - 0x80), u.missing - 1, 0x80, 0xBF⟩) bytes := by
  have he : u.extend byte =
      .begun ⟨u.value * 64 + (byte.toNat - 0x80), u.missing - 1, 0x80, 0xBF⟩ := by
    unfold Begun.extend
    rw [if_neg (by omega)]
  simp [decodeFrom, Begun.accepts_of_le hl hg, he, Start.entries, Start.pending]

theorem start_two {byte : UInt8} {n : Nat} (hb : byte.toNat = n / 64 % 0x20 + 0xC0)
    (hl : 0x7F < n) (hg : n ≤ 0x7FF) : start byte = .begun ⟨n / 64, 1, 0x80, 0xBF⟩ := by
  unfold start
  simp only [hb]
  rw [if_neg (by omega), if_neg (by omega), if_pos (by omega)]
  exact begun_congr (by omega)

theorem start_three {byte : UInt8} {n : Nat} (hb : byte.toNat = n / 4096 % 0x10 + 0xE0)
    (hl : 0x7FF < n) (hg : n ≤ 0xFFFF) (hs : n < 0xD800 ∨ 0xDFFF < n) :
    ∃ least greatest, start byte = .begun ⟨n / 4096, 2, least, greatest⟩ ∧
      least ≤ n / 64 % 0x40 + 0x80 ∧ n / 64 % 0x40 + 0x80 ≤ greatest := by
  unfold start
  simp only [hb]
  rw [if_neg (by omega), if_neg (by omega), if_neg (by omega)]
  split
  case isTrue h => exact ⟨0xA0, 0xBF, begun_congr (by omega), by omega, by omega⟩
  case isFalse =>
    split
    case isTrue h => exact ⟨0x80, 0x9F, begun_congr (by omega), by omega, by omega⟩
    case isFalse =>
      rw [if_pos (by omega)]
      exact ⟨0x80, 0xBF, begun_congr (by omega), by omega, by omega⟩

theorem start_four {byte : UInt8} {n : Nat} (hb : byte.toNat = n / 262144 % 0x08 + 0xF0)
    (hl : 0xFFFF < n) (hg : n < 0x110000) :
    ∃ least greatest, start byte = .begun ⟨n / 262144, 3, least, greatest⟩ ∧
      least ≤ n / 4096 % 0x40 + 0x80 ∧ n / 4096 % 0x40 + 0x80 ≤ greatest := by
  unfold start
  simp only [hb]
  rw [if_neg (by omega), if_neg (by omega), if_neg (by omega), if_neg (by omega),
    if_neg (by omega), if_neg (by omega)]
  split
  case isTrue h => exact ⟨0x90, 0xBF, begun_congr (by omega), by omega, by omega⟩
  case isFalse =>
    split
    case isTrue h => exact ⟨0x80, 0xBF, begun_congr (by omega), by omega, by omega⟩
    case isFalse =>
      rw [if_pos (by omega)]
      exact ⟨0x80, 0x8F, begun_congr (by omega), by omega, by omega⟩

theorem decodeFrom_utf8EncodeChar (c : Char) (bytes : List UInt8) :
    decodeFrom none (String.utf8EncodeChar c ++ bytes) = some c :: decodeFrom none bytes := by
  have hv : c.toNat < 0xD800 ∨ 0xDFFF < c.toNat ∧ c.toNat < 0x110000 := c.valid
  unfold String.utf8EncodeChar
  simp only [show c.val.toNat = c.toNat from rfl]
  generalize hn : c.toNat = n at hv
  have hb₁ := toNat_ofNat_of_lt (n := n % 0x40 + 0x80) (by omega)
  have hb₂ := toNat_ofNat_of_lt (n := n / 64 % 0x40 + 0x80) (by omega)
  have hb₃ := toNat_ofNat_of_lt (n := n / 4096 % 0x40 + 0x80) (by omega)
  split
  case isTrue h =>
    refine decodeFrom_whole bytes ?_
    unfold start
    simp only [toNat_ofNat_of_lt (n := n) (by omega)]
    rw [if_pos (by omega), ← hn, Char.ofNat_toNat]
  case isFalse h₁ =>
    split
    case isTrue h₂ =>
      have hs := start_two (toNat_ofNat_of_lt (n := n / 64 % 0x20 + 0xC0) (by omega))
        (by omega) h₂
      rw [List.cons_append, decodeFrom_begun _ hs]
      exact decodeFrom_last bytes rfl (by simp only [hb₁]; omega) (by simp only [hb₁]; omega)
        (by simp only [hb₁]; omega)
    case isFalse h₂ =>
      split
      case isTrue h₃ =>
        have ⟨_, _, hs, hl, hg⟩ := start_three
          (toNat_ofNat_of_lt (n := n / 4096 % 0x10 + 0xE0) (by omega)) (by omega) h₃ (by omega)
        rw [List.cons_append, decodeFrom_begun _ hs, List.cons_append,
          decodeFrom_more _ (by simp) (by simpa only [hb₂] using hl) (by simpa only [hb₂] using hg)]
        exact decodeFrom_last bytes rfl (by simp only [hb₁]; omega) (by simp only [hb₁]; omega)
          (by simp only [hb₁, hb₂]; omega)
      case isFalse h₃ =>
        have ⟨_, _, hs, hl, hg⟩ := start_four
          (toNat_ofNat_of_lt (n := n / 262144 % 0x08 + 0xF0) (by omega)) (by omega) (by omega)
        rw [List.cons_append, decodeFrom_begun _ hs, List.cons_append,
          decodeFrom_more _ (by simp) (by simpa only [hb₃] using hl) (by simpa only [hb₃] using hg),
          List.cons_append,
          decodeFrom_more _ (by simp) (by simp only [hb₂]; omega) (by simp only [hb₂]; omega)]
        exact decodeFrom_last bytes rfl (by simp only [hb₁]; omega) (by simp only [hb₁]; omega)
          (by simp only [hb₁, hb₂, hb₃]; omega)

-- Reading undoes writing: the bytes of a text are read as its characters, whatever these are.
theorem decode_encode (text : List Char) : decode (encode text) = text.map some := by
  induction text
  case nil => rfl
  case cons c cs hi =>
    rw [encode, List.flatMap_cons]
    exact (decodeFrom_utf8EncodeChar c _).trans (congrArg _ hi)

theorem text?_encode (text : List Char) : text? (encode text) = some (String.ofList text) := by
  simp [text?, decode_encode, List.filterMap_map]

theorem lossyText_encode (text : List Char) : lossyText (encode text) = String.ofList text := by
  simp [lossyText, decode_encode, Function.comp_def]

theorem exists_of_decodeFrom_some {u : Begun} {bytes : List UInt8} {cs : List Char}
    (h : decodeFrom (some u) bytes = cs.map some) : ∃ byte rest, bytes = byte :: rest ∧
      u.least ≤ byte.toNat ∧ byte.toNat ≤ u.greatest ∧
      if u.missing ≤ 1 then ∃ cs', cs = Char.ofNat (u.value * 64 + (byte.toNat - 0x80)) :: cs' ∧
        decodeFrom none rest = cs'.map some
      else decodeFrom (some ⟨u.value * 64 + (byte.toNat - 0x80), u.missing - 1, 0x80, 0xBF⟩) rest =
        cs.map some := by
  cases bytes
  case nil => cases cs <;> simp [decodeFrom] at h
  case cons byte rest =>
    rw [decodeFrom] at h
    split at h
    case isFalse => cases cs <;> simp at h
    case isTrue ha =>
      simp only [Begun.accepts, Bool.and_eq_true, decide_eq_true_eq] at ha
      refine ⟨byte, rest, rfl, ha.left, ha.right, ?_⟩
      unfold Begun.extend at h
      split
      case isTrue hm =>
        rw [if_pos hm] at h
        cases cs
        case nil => simp [Start.entries] at h
        case cons c cs =>
          have hc := List.cons.inj h
          exact ⟨cs, by rw [Option.some.inj hc.left], hc.right⟩
      case isFalse hm =>
        rw [if_neg hm] at h
        exact h

theorem toNat_ofNat {n : Nat} (h : n.isValidChar) : (Char.ofNat n).toNat = n := by
  rw [Char.ofNat, dif_pos h]
  rfl

theorem eq_ofNat_of_toNat (byte : UInt8) {n : Nat} (h : byte.toNat = n) : byte = UInt8.ofNat n := by
  rw [← h, UInt8.ofNat_toNat]

theorem utf8EncodeChar_ofNat {n : Nat} (h : n.isValidChar) :
    String.utf8EncodeChar (Char.ofNat n) =
      if n ≤ 0x7F then [UInt8.ofNat n]
      else if n ≤ 0x7FF then [UInt8.ofNat (n / 64 % 0x20 + 0xC0), UInt8.ofNat (n % 0x40 + 0x80)]
      else if n ≤ 0xFFFF then
        [UInt8.ofNat (n / 4096 % 0x10 + 0xE0), UInt8.ofNat (n / 64 % 0x40 + 0x80),
          UInt8.ofNat (n % 0x40 + 0x80)]
      else
        [UInt8.ofNat (n / 262144 % 0x08 + 0xF0), UInt8.ofNat (n / 4096 % 0x40 + 0x80),
          UInt8.ofNat (n / 64 % 0x40 + 0x80), UInt8.ofNat (n % 0x40 + 0x80)] := by
  have hn : (Char.ofNat n).val.toNat = n := toNat_ofNat h
  simp only [String.utf8EncodeChar, hn]

theorem utf8EncodeChar_two {b₁ b₂ : UInt8} (h₁ : 0xC2 ≤ b₁.toNat ∧ b₁.toNat < 0xE0)
    (h₂ : 0x80 ≤ b₂.toNat ∧ b₂.toNat ≤ 0xBF) :
    [b₁, b₂] =
      String.utf8EncodeChar (Char.ofNat ((b₁.toNat - 0xC0) * 64 + (b₂.toNat - 0x80))) := by
  rw [utf8EncodeChar_ofNat (.inl (by omega)), if_neg (by omega), if_pos (by omega)]
  rw [← eq_ofNat_of_toNat b₁ (by omega), ← eq_ofNat_of_toNat b₂ (by omega)]

theorem utf8EncodeChar_three {b₁ b₂ b₃ : UInt8} (h₁ : 0xE0 ≤ b₁.toNat ∧ b₁.toNat < 0xF0)
    (h₂ : 0x80 ≤ b₂.toNat ∧ b₂.toNat ≤ 0xBF) (h₃ : 0x80 ≤ b₃.toNat ∧ b₃.toNat ≤ 0xBF)
    (hl : b₁.toNat = 0xE0 → 0xA0 ≤ b₂.toNat) (hs : b₁.toNat = 0xED → b₂.toNat ≤ 0x9F) :
    [b₁, b₂, b₃] = String.utf8EncodeChar (Char.ofNat
      (((b₁.toNat - 0xE0) * 64 + (b₂.toNat - 0x80)) * 64 + (b₃.toNat - 0x80))) := by
  have hv : (((b₁.toNat - 0xE0) * 64 + (b₂.toNat - 0x80)) * 64 + (b₃.toNat - 0x80)).isValidChar := by
    unfold Nat.isValidChar
    omega
  rw [utf8EncodeChar_ofNat hv, if_neg (by omega), if_neg (by omega), if_pos (by omega)]
  rw [← eq_ofNat_of_toNat b₁ (by omega), ← eq_ofNat_of_toNat b₂ (by omega),
    ← eq_ofNat_of_toNat b₃ (by omega)]

theorem utf8EncodeChar_four {b₁ b₂ b₃ b₄ : UInt8} (h₁ : 0xF0 ≤ b₁.toNat ∧ b₁.toNat ≤ 0xF4)
    (h₂ : 0x80 ≤ b₂.toNat ∧ b₂.toNat ≤ 0xBF) (h₃ : 0x80 ≤ b₃.toNat ∧ b₃.toNat ≤ 0xBF)
    (h₄ : 0x80 ≤ b₄.toNat ∧ b₄.toNat ≤ 0xBF) (hl : b₁.toNat = 0xF0 → 0x90 ≤ b₂.toNat)
    (hg : b₁.toNat = 0xF4 → b₂.toNat ≤ 0x8F) :
    [b₁, b₂, b₃, b₄] = String.utf8EncodeChar (Char.ofNat
      ((((b₁.toNat - 0xF0) * 64 + (b₂.toNat - 0x80)) * 64 + (b₃.toNat - 0x80)) * 64 +
        (b₄.toNat - 0x80))) := by
  rw [utf8EncodeChar_ofNat (.inr (by omega)), if_neg (by omega), if_neg (by omega),
    if_neg (by omega)]
  rw [← eq_ofNat_of_toNat b₁ (by omega), ← eq_ofNat_of_toNat b₂ (by omega),
    ← eq_ofNat_of_toNat b₃ (by omega), ← eq_ofNat_of_toNat b₄ (by omega)]

theorem start_cases (byte : UInt8) :
    start byte = .illFormed ∨
    byte.toNat < 0x80 ∧ start byte = .whole (Char.ofNat byte.toNat) ∨
    (0xC2 ≤ byte.toNat ∧ byte.toNat < 0xE0) ∧
      start byte = .begun ⟨byte.toNat - 0xC0, 1, 0x80, 0xBF⟩ ∨
    (0xE0 ≤ byte.toNat ∧ byte.toNat < 0xF0) ∧
      (∃ least greatest, start byte = .begun ⟨byte.toNat - 0xE0, 2, least, greatest⟩ ∧
        (0x80 ≤ least ∧ greatest ≤ 0xBF) ∧
        (byte.toNat = 0xE0 → 0xA0 ≤ least) ∧ (byte.toNat = 0xED → greatest ≤ 0x9F)) ∨
    (0xF0 ≤ byte.toNat ∧ byte.toNat ≤ 0xF4) ∧
      (∃ least greatest, start byte = .begun ⟨byte.toNat - 0xF0, 3, least, greatest⟩ ∧
        (0x80 ≤ least ∧ greatest ≤ 0xBF) ∧
        (byte.toNat = 0xF0 → 0x90 ≤ least) ∧ (byte.toNat = 0xF4 → greatest ≤ 0x8F)) := by
  unfold start
  dsimp only
  generalize byte.toNat = b
  split
  case isTrue h => exact .inr <| .inl ⟨h, rfl⟩
  case isFalse =>
  split
  case isTrue => exact .inl rfl
  case isFalse =>
  split
  case isTrue => exact .inr <| .inr <| .inl ⟨by omega, rfl⟩
  case isFalse =>
  split
  case isTrue h =>
    exact .inr <| .inr <| .inr <| .inl ⟨by omega, 0xA0, 0xBF, by rw [h], by omega⟩
  case isFalse =>
  split
  case isTrue h =>
    exact .inr <| .inr <| .inr <| .inl ⟨by omega, 0x80, 0x9F, by rw [h], by omega⟩
  case isFalse =>
  split
  case isTrue h => exact .inr <| .inr <| .inr <| .inl ⟨by omega, 0x80, 0xBF, rfl, by omega⟩
  case isFalse =>
  split
  case isTrue h =>
    exact .inr <| .inr <| .inr <| .inr ⟨by omega, 0x90, 0xBF, by rw [h], by omega⟩
  case isFalse =>
  split
  case isTrue h => exact .inr <| .inr <| .inr <| .inr ⟨by omega, 0x80, 0xBF, rfl, by omega⟩
  case isFalse =>
  split
  case isTrue h =>
    exact .inr <| .inr <| .inr <| .inr ⟨by omega, 0x80, 0x8F, by rw [h], by omega⟩
  case isFalse => exact .inl rfl

theorem exists_of_decodeFrom_none {byte : UInt8} {bytes : List UInt8} {cs : List Char}
    (h : decodeFrom none (byte :: bytes) = cs.map some) : ∃ c cs' rest,
      cs = c :: cs' ∧ byte :: bytes = String.utf8EncodeChar c ++ rest ∧
        decodeFrom none rest = cs'.map some := by
  rcases start_cases byte with
    hs | ⟨hb, hs⟩ | ⟨hb, hs⟩ | ⟨hb, _, _, hs, hr, hl, hg⟩ | ⟨hb, _, _, hs, hr, hl, hg⟩
  case inl =>
    rw [decodeFrom, hs] at h
    cases cs <;> simp [Start.entries] at h
  case inr.inl =>
    rw [decodeFrom_whole bytes hs] at h
    cases cs
    case nil => cases h
    case cons c cs' =>
      have hc := List.cons.inj h
      refine ⟨_, cs', bytes, rfl, ?_, hc.right⟩
      rw [← Option.some.inj hc.left, utf8EncodeChar_ofNat (.inl (by omega)), if_pos (by omega),
        UInt8.ofNat_toNat, List.singleton_append]
  case inr.inr.inl =>
    rw [decodeFrom_begun bytes hs] at h
    have ⟨b₂, rest, he₂, hl₂, hg₂, h₂⟩ := exists_of_decodeFrom_some h
    have ⟨cs', hc, hd⟩ := h₂
    refine ⟨_, cs', rest, hc, ?_, hd⟩
    rw [he₂, ← utf8EncodeChar_two hb ⟨hl₂, hg₂⟩]
    rfl
  case inr.inr.inr.inl =>
    rw [decodeFrom_begun bytes hs] at h
    have ⟨b₂, rest₂, he₂, hl₂, hg₂, h₂⟩ := exists_of_decodeFrom_some h
    have ⟨b₃, rest, he₃, hl₃, hg₃, h₃⟩ := exists_of_decodeFrom_some h₂
    have ⟨cs', hc, hd⟩ := h₃
    refine ⟨_, cs', rest, hc, ?_, hd⟩
    dsimp only at hl₂ hg₂
    rw [he₂, he₃, ← utf8EncodeChar_three hb (by omega) ⟨hl₃, hg₃⟩ (by omega) (by omega)]
    rfl
  case inr.inr.inr.inr =>
    rw [decodeFrom_begun bytes hs] at h
    have ⟨b₂, rest₂, he₂, hl₂, hg₂, h₂⟩ := exists_of_decodeFrom_some h
    have ⟨b₃, rest₃, he₃, hl₃, hg₃, h₃⟩ := exists_of_decodeFrom_some h₂
    have ⟨b₄, rest, he₄, hl₄, hg₄, h₄⟩ := exists_of_decodeFrom_some h₃
    have ⟨cs', hc, hd⟩ := h₄
    refine ⟨_, cs', rest, hc, ?_, hd⟩
    dsimp only at hl₂ hg₂
    rw [he₂, he₃, he₄,
      ← utf8EncodeChar_four hb (by omega) ⟨hl₃, hg₃⟩ ⟨hl₄, hg₄⟩ (by omega) (by omega)]
    rfl

-- No other bytes are read as these characters: what is read without any entry for an ill-formed
-- part is what its characters are written as. So well-formed bytes are the bytes of a text.
theorem eq_encode_of_decodeFrom {bytes : List UInt8} {cs : List Char}
    (h : decodeFrom none bytes = cs.map some) : bytes = encode cs := by
  induction hl : bytes.length using Nat.strongRecOn generalizing bytes cs
  case ind n hi =>
    cases bytes
    case nil =>
      cases cs
      case nil => rfl
      case cons => cases h
    case cons byte bytes =>
      have ⟨c, cs', rest, hc, he, hr⟩ := exists_of_decodeFrom_none h
      have hp := String.length_utf8EncodeChar c
      have hn : rest.length < n := by
        rw [← hl, he, List.length_append]
        have hs := c.utf8Size_pos
        omega
      rw [hc, he, hi _ hn hr rfl]
      rfl

theorem map_some_filterMap {es : List (Option Char)} (h : es.all Option.isSome) :
    es = (es.filterMap id).map some := by
  induction es
  case nil => rfl
  case cons e es hi =>
    have ⟨he, hes⟩ := Bool.and_eq_true_iff.mp <| List.all_cons.symm.trans h
    have ⟨c, hc⟩ := Option.isSome_iff_exists.mp he
    have hf : (e :: es).filterMap id = c :: es.filterMap id := by rw [hc]; rfl
    rw [hf, List.map_cons, ← hi hes, hc]

theorem text?_eq_some_iff {bytes : List UInt8} {text : String} :
    text? bytes = some text ↔ bytes = encode text.toList := by
  constructor
  case mp =>
    intro h
    unfold text? at h
    dsimp only at h
    split at h
    case isFalse => contradiction
    case isTrue ha =>
      rw [← Option.some.inj h, String.toList_ofList]
      exact eq_encode_of_decodeFrom <| map_some_filterMap ha
  case mpr =>
    intro h
    rw [h, text?_encode, String.ofList_toList]

end Lox.Utf8
