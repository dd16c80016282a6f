import Lox.Proofs.Lexing.Bytes

namespace Lox.Utf8

def isContinuation (b : UInt8) : Bool :=
  0x80 ≤ b.toNat && b.toNat < 0xC0

def isBoundary (bytes : List UInt8) (i : Nat) : Bool :=
  match bytes[i]? with
  | some b => i == 0 || !isContinuation b
  | none   => i == bytes.length

-- A place between two characters is told by the byte behind it alone: it does not go on with a
-- character. What stands between two such places is a text, and nothing else that is cut out is, so
-- there is no slice of anything else. It would be a crash.
def slice? (bytes : List UInt8) (start stop : Nat) : Option String :=
  if start ≤ stop && isBoundary bytes start && isBoundary bytes stop then
    text? <| (bytes.drop start).take (stop - start)
  else none

theorem isContinuation_ofNat {n : Nat} (h : n < 0x40) :
    isContinuation (UInt8.ofNat (n + 0x80)) := by
  rw [isContinuation, toNat_ofNat_of_lt (by omega), Bool.and_eq_true, decide_eq_true_eq,
    decide_eq_true_eq]
  omega

theorem not_isContinuation_ofNat {n : Nat} (h : n < 0x100) (hn : n < 0x80 ∨ 0xC0 ≤ n) :
    isContinuation (UInt8.ofNat n) = false := by
  rw [isContinuation, toNat_ofNat_of_lt h, Bool.and_eq_false_iff, decide_eq_false_iff_not,
    decide_eq_false_iff_not]
  omega

theorem utf8EncodeChar_eq_cons (c : Char) : ∃ b bytes, String.utf8EncodeChar c = b :: bytes ∧
    isContinuation b = false ∧ ∀ b' ∈ bytes, isContinuation b' := by
  have hv : c.val.toNat < 0x110000 := by
    have hc : c.val.toNat < 0xD800 ∨ 0xDFFF < c.val.toNat ∧ c.val.toNat < 0x110000 := c.valid
    omega
  unfold String.utf8EncodeChar
  generalize c.val.toNat = n at hv
  have hc (k : Nat) : isContinuation (UInt8.ofNat (n / k % 0x40 + 0x80)) :=
    isContinuation_ofNat <| Nat.mod_lt _ (by decide)
  have hc₁ : isContinuation (UInt8.ofNat (n % 0x40 + 0x80)) := Nat.div_one n ▸ hc 1
  dsimp only
  split
  case isTrue => exact ⟨_, _, rfl, not_isContinuation_ofNat (by omega) (by omega), by simp⟩
  case isFalse =>
  split
  case isTrue =>
    exact ⟨_, _, rfl, not_isContinuation_ofNat (by omega) (by omega),
      List.forall_mem_singleton.mpr hc₁⟩
  case isFalse =>
  split
  case isTrue =>
    exact ⟨_, _, rfl, not_isContinuation_ofNat (by omega) (by omega),
      List.forall_mem_cons.mpr ⟨hc 64, List.forall_mem_singleton.mpr hc₁⟩⟩
  case isFalse =>
    exact ⟨_, _, rfl, not_isContinuation_ofNat (by omega) (by omega),
      List.forall_mem_cons.mpr ⟨hc 4096,
        List.forall_mem_cons.mpr ⟨hc 64, List.forall_mem_singleton.mpr hc₁⟩⟩⟩

theorem isBoundary_encode (before after : List Char) :
    isBoundary (encode (before ++ after)) (encode before).length := by
  rw [encode_append, isBoundary, List.getElem?_append_right (Nat.le_refl _), Nat.sub_self]
  cases after
  case nil => simp [encode]
  case cons c after =>
    obtain ⟨b, bytes, hb, hn, _⟩ := utf8EncodeChar_eq_cons c
    rw [encode_cons, hb, List.cons_append, List.getElem?_cons_zero]
    simp [hn]

theorem exists_of_isBoundary {text : List Char} {i : Nat} (h : isBoundary (encode text) i) :
    ∃ before after, text = before ++ after ∧ i = (encode before).length := by
  induction text generalizing i
  case nil =>
    have hi : i = 0 := by simpa [isBoundary, encode] using h
    exact ⟨[], [], rfl, hi⟩
  case cons c cs hi =>
    by_cases hz : i = 0
    case pos => exact ⟨[], c :: cs, rfl, hz⟩
    case neg =>
      obtain ⟨b, bytes, hb, _, hc⟩ := utf8EncodeChar_eq_cons c
      have he : encode (c :: cs) = (b :: bytes) ++ encode cs := by rw [encode_cons, hb]
      by_cases hl : i < (b :: bytes).length
      case pos =>
        -- Inside of the first character there are only continuations.
        rw [isBoundary, he, List.getElem?_append_left hl, List.getElem?_eq_getElem hl] at h
        obtain ⟨k, hk⟩ := Nat.exists_eq_succ_of_ne_zero hz
        subst hk
        have hm := hc _ <| List.getElem_mem <| Nat.lt_of_succ_lt_succ hl
        simp [hm] at h
      case neg =>
        have hl := Nat.not_lt.mp hl
        have hn : isBoundary (encode cs) (i - (b :: bytes).length) := by
          rw [isBoundary, he, List.getElem?_append_right hl] at h
          rw [isBoundary]
          cases hg : (encode cs)[i - (b :: bytes).length]?
          case none =>
            rw [hg] at h
            simp only [List.length_append, beq_iff_eq] at h ⊢
            omega
          case some =>
            rw [hg] at h
            simp only [beq_eq_false_iff_ne.mpr hz, Bool.false_or] at h
            simp only [h, Bool.or_true]
        obtain ⟨before, after, ht, hl'⟩ := hi hn
        refine ⟨c :: before, after, by rw [ht, List.cons_append], ?_⟩
        rw [encode_cons, hb, List.length_append, ← hl']
        omega

theorem slice?_encode (before text after : List Char) :
    slice? (encode (before ++ text ++ after)) (encode before).length
      ((encode before).length + (encode text).length) = some (String.ofList text) := by
  have hs : isBoundary (encode (before ++ text ++ after)) (encode before).length := by
    rw [List.append_assoc]
    exact isBoundary_encode ..
  have hs' : isBoundary (encode (before ++ text ++ after))
      ((encode before).length + (encode text).length) := by
    rw [← List.length_append, ← encode_append]
    exact isBoundary_encode ..
  have hd : ((encode (before ++ text ++ after)).drop (encode before).length).take
      ((encode before).length + (encode text).length - (encode before).length) = encode text := by
    rw [List.append_assoc, encode_append, List.drop_left, Nat.add_sub_cancel_left, encode_append,
      List.take_left]
  rw [slice?, hs, hs', hd, text?_encode]
  simp

theorem eq_nil_of_length_encode {text : List Char} (h : (encode text).length = 0) : text = [] :=
  encode_injective <| List.length_eq_zero_iff.mp h

theorem slice?_eq_some_iff {text : List Char} {start stop : Nat} {part : String} :
    slice? (encode text) start stop = some part ↔ ∃ before after,
      text = before ++ part.toList ++ after ∧ start = (encode before).length ∧
        stop = (encode before).length + (encode part.toList).length := by
  constructor
  case mp =>
    intro h
    by_cases hb : (start ≤ stop && isBoundary (encode text) start &&
      isBoundary (encode text) stop) = true
    case neg =>
      rw [slice?, if_neg hb] at h
      contradiction
    case pos =>
      simp only [Bool.and_eq_true, decide_eq_true_eq] at hb
      have ⟨⟨hl, hb⟩, hb'⟩ := hb
      have ⟨before, after, ht, hs⟩ := exists_of_isBoundary hb
      have ⟨before', after', ht', hs'⟩ := exists_of_isBoundary hb'
      -- The slice ends behind where it begins.
      have ⟨part', hp⟩ : before <+: before' := by
        rcases List.prefix_or_prefix_of_prefix ⟨after, ht.symm⟩ ⟨after', ht'.symm⟩ with hp | hp
        case inl => exact hp
        case inr =>
          have ⟨more, hm⟩ := hp
          rw [hs, hs', ← hm, encode_append, List.length_append] at hl
          have hn := @eq_nil_of_length_encode more (by omega)
          have he : before = before' := by rw [← hm, hn, List.append_nil]
          exact he ▸ List.prefix_rfl
      have he := slice?_encode before part' after'
      rw [hp, ← ht', ← List.length_append, ← encode_append, hp, ← hs, ← hs', h] at he
      have he := Option.some.inj he
      refine ⟨before, after', ?_, hs, ?_⟩
      case refine_1 => rw [he, String.toList_ofList, hp, ht']
      case refine_2 => rw [hs', ← hp, encode_append, List.length_append, he, String.toList_ofList]
  case mpr =>
    intro ⟨before, after, ht, hs, hs'⟩
    rw [ht, hs, hs', slice?_encode, String.ofList_toList]

end Lox.Utf8
