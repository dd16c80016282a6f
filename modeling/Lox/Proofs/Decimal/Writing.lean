import Mathlib
import Lox.Proofs.Decimal.Rounding
import Lox.Proofs.Lexing.Spelling

namespace Lox

namespace Double

open Float.Model (Format.binary64)
open Float.Model.UnpackedFloat (unpack unpackExponent unpackMantissa unpackExponent_def
  unpackMantissa_def pack_unpack_of_valid)

variable {x : Float} {bits : Nat}

theorem infinity_eq : infinity = 2047 * 2 ^ 52 :=
  rfl

theorem unpackExponent_eq_iff (b : BitVec 64) :
    @unpackExponent Format.binary64 b = -1#11 ↔ infinity ≤ b.toNat % Nat.pow 2 63 := by
  have hn : (-1#11).toNat = 2047 := rfl
  rw [unpackExponent_def, ← BitVec.toNat_inj, BitVec.extractLsb'_toNat, Nat.shiftRight_eq_div_pow,
    infinity_eq, hn, Nat.pow_eq]
  dsimp only [Format.binary64]
  omega

theorem toNat_toUInt64 (h : bits ≤ infinity) : bits.toUInt64.toNat = bits := by
  have hi := infinity_eq
  have hs : UInt64.size = 2 ^ 64 := rfl
  exact UInt64.toNat_ofNat_of_lt (by omega)

theorem toBits_ofBits (h : bits ≤ infinity) : (Float.ofBits bits.toUInt64).toBits = bits.toUInt64 := by
  refine UInt64.toBitVec_inj.mp <| pack_unpack_of_valid ⟨fun he hm => absurd ?_ hm⟩
  have hb : bits.toUInt64.toBitVec.toNat = bits := toNat_toUInt64 h
  have hi := (unpackExponent_eq_iff _).mp he
  have hz : (0#52).toNat = 0 := rfl
  rw [infinity_eq] at h hi
  rw [unpackMantissa_def, ← BitVec.toNat_inj, BitVec.extractLsb'_toNat, Nat.shiftRight_eq_div_pow,
    hb, hz]
  rw [hb, Nat.pow_eq] at hi
  dsimp only [Format.binary64]
  omega

theorem isNegative_ofBits (h : bits ≤ infinity) :
    isNegative (Float.ofBits bits.toUInt64) = false := by
  have hi := infinity_eq
  rw [isNegative, toBits_ofBits h, toNat_toUInt64 h]
  exact decide_eq_false (by show ¬2 ^ 63 ≤ bits; omega)

theorem ofBits_magnitudeBits (h : isNegative x = false) :
    Float.ofBits (magnitudeBits x).toUInt64 = x := by
  have hl : x.toBits.toNat < Nat.pow 2 63 := Nat.not_le.mp <| of_decide_eq_false h
  have hu : x.toBits.toNat.toUInt64 = x.toBits := UInt64.ofNat_toNat
  rw [magnitudeBits, Nat.mod_eq_of_lt hl, hu, Float.ofBits_toBits]

theorem isFinite_unpack_iff (b : BitVec 64) :
    (unpack Format.binary64 b).isFinite ↔ @unpackExponent Format.binary64 b ≠ -1#11 := by
  rw [unpack]
  split
  case isTrue h => split <;> exact iff_of_false Bool.false_ne_true (not_not_intro h)
  case isFalse h =>
    split
    case isTrue => split <;> exact iff_of_true rfl h
    case isFalse => exact iff_of_true rfl h

theorem isFinite_iff (x : Float) : x.isFinite ↔ magnitudeBits x < infinity := by
  rw [← Nat.not_le]
  exact (isFinite_unpack_iff _).trans <| not_congr <| unpackExponent_eq_iff x.toBits.toBitVec

theorem isNegative_nearest (num den : Nat) : isNegative (nearest num den) = false :=
  isNegative_ofBits <| nearestBits_le num den

end Double

namespace Numeral

open Decimal (shortest)

variable {n part : Nat}

theorem digitValue_digit (h : n < 10) : digitValue (digit n) = n := by
  have hd : ∀ n < 10, digitValue (digit n) = n := by decide
  exact hd n h

theorem isDigit_digit (h : n < 10) : (digit n).isDigit := by
  have hd : ∀ n < 10, (digit n).isDigit := by decide
  exact hd n h

theorem ofDigits_append (ds ds' : List Char) :
    ofDigits (ds ++ ds') = ofDigits ds * 10 ^ ds'.length + ofDigits ds' := by
  have h : ofDigits (ds ++ ds') = Nat.ofDigitChars 10 ds' (ofDigits ds) :=
    Nat.ofDigitChars_append 0
  rw [h, Nat.ofDigitChars_eq_ofDigitChars_zero, Nat.mul_comm]
  rfl

theorem ofDigits_toDigits (n : Nat) : ofDigits (Nat.toDigits 10 n) = n :=
  Nat.ofDigitChars_ten_toDigits

theorem isDigits_toDigits (n : Nat) : IsDigits (Nat.toDigits 10 n) :=
  ⟨Nat.toDigits_ne_nil, fun _ hc => Nat.isDigit_of_mem_toDigits (by decide) (by decide) hc⟩

section Fraction

theorem fractionDigits_zero (places : Nat) : fractionDigits places 0 = [] := by
  cases places <;> rfl

theorem fractionDigits_succ (places : Nat) (h : part ≠ 0) :
    fractionDigits (places + 1) part = digit (part * 10 / Decimal.one) ::
      fractionDigits places (part * 10 % Decimal.one) :=
  if_neg h

theorem mul_ten_div_lt {one : Nat} (h : part < one) : part * 10 / one < 10 :=
  Nat.div_lt_of_lt_mul <| Nat.mul_lt_mul_of_pos_right h (by decide)

theorem mul_ten_mod_lt {one : Nat} (h : part < one) : part * 10 % one < one :=
  Nat.mod_lt _ <| Nat.zero_lt_of_lt h

theorem dvd_mul_ten_mod {one places : Nat} (h : one ∣ part * 10 ^ (places + 1)) :
    one ∣ part * 10 % one * 10 ^ places := by
  have he : part * 10 ^ (places + 1) =
      one * (part * 10 / one * 10 ^ places) + part * 10 % one * 10 ^ places := by
    rw [← Nat.mul_assoc, ← Nat.add_mul, Nat.div_add_mod, Nat.mul_assoc, Nat.pow_succ']
  exact (Nat.dvd_add_right (Nat.dvd_mul_right ..)).mp (he ▸ h)

theorem isDigit_of_mem_fractionDigits {places : Nat} (h : part < Decimal.one) :
    ∀ c ∈ fractionDigits places part, c.isDigit := by
  induction places generalizing part
  case zero => nofun
  case succ places hi =>
    by_cases hz : part = 0
    case pos =>
      rw [hz, fractionDigits_zero]
      nofun
    case neg =>
      rw [fractionDigits_succ places hz]
      exact List.forall_mem_cons.mpr ⟨isDigit_digit <| mul_ten_div_lt h, hi <| mul_ten_mod_lt h⟩

theorem ofDigits_cons_digit (h : n < 10) (ds : List Char) :
    ofDigits (digit n :: ds) = n * 10 ^ ds.length + ofDigits ds := by
  have hd : ofDigits [digit n] = n := (Nat.zero_add _).trans (digitValue_digit h)
  rw [← List.singleton_append, ofDigits_append, hd]

theorem ofDigits_fractionDigits {places : Nat} (h : part < Decimal.one)
    (hd : Decimal.one ∣ part * 10 ^ places) :
    ofDigits (fractionDigits places part) * Decimal.one =
      part * 10 ^ (fractionDigits places part).length := by
  have hn : ofDigits [] = 0 := rfl
  induction places generalizing part
  case zero =>
    -- No places are left and none are needed: a part below one that one divides is zero.
    rw [Nat.pow_zero, Nat.mul_one] at hd
    rw [Nat.eq_zero_of_dvd_of_lt hd h, fractionDigits_zero, hn, Nat.zero_mul, Nat.zero_mul]
  case succ places hi =>
    by_cases hz : part = 0
    case pos => rw [hz, fractionDigits_zero, hn, Nat.zero_mul, Nat.zero_mul]
    case neg =>
      have hi := hi (mul_ten_mod_lt h) (dvd_mul_ten_mod hd)
      rw [fractionDigits_succ places hz, ofDigits_cons_digit (mul_ten_div_lt h), Nat.add_mul, hi,
        List.length_cons, Nat.mul_right_comm, ← Nat.add_mul, Nat.div_add_mod', Nat.mul_assoc,
        Nat.pow_succ']

end Fraction

theorem exists_fractionDigits (units : Nat) : ∃ ds, fraction (units % Decimal.one) = (match ds with
    | [] => []
    | ds => '.' :: ds) ∧ (∀ c ∈ ds, c.isDigit) ∧
      ofDigits ds * Decimal.one = units % Decimal.one * 10 ^ ds.length := by
  have hm : units % Decimal.one < Decimal.one := Nat.mod_lt _ Decimal.one_pos
  have hd : Decimal.one ∣ units % Decimal.one * 10 ^ 1074 := Nat.dvd_mul_left ..
  exact ⟨_, rfl, isDigit_of_mem_fractionDigits hm, ofDigits_fractionDigits hm hd⟩

-- All digits that are written, read as one number, are the number of units that the value has of
-- the last place. There are places enough for that, since a unit has no more of them than are
-- tried.
theorem ofUnits_cases (units : Nat) :
    (IsDigits (ofUnits units) ∧ ofDigits (ofUnits units) * Decimal.one = units) ∨
      ∃ whole fraction, IsDigits whole ∧ IsDigits fraction ∧
        ofUnits units = whole ++ '.' :: fraction ∧
        ofDigits (whole ++ fraction) * Decimal.one = units * 10 ^ fraction.length := by
  have ⟨ds, hf, hd, hv⟩ := exists_fractionDigits units
  have hu : units / Decimal.one * Decimal.one + units % Decimal.one = units := Nat.div_add_mod' ..
  have hw := isDigits_toDigits (units / Decimal.one)
  rw [ofUnits, hf]
  cases ds
  case nil =>
    have hn : ofDigits [] = 0 := rfl
    rw [hn, Nat.zero_mul, List.length_nil, Nat.pow_zero, Nat.mul_one] at hv
    rw [← hv, Nat.add_zero] at hu
    refine .inl ⟨?_, ?_⟩ <;> dsimp only
    case refine_1 => rwa [List.append_nil]
    case refine_2 => rw [List.append_nil, ofDigits_toDigits, hu]
  case cons d ds =>
    refine .inr ⟨_, d :: ds, hw, ⟨nofun, hd⟩, rfl, ?_⟩
    rw [ofDigits_append, ofDigits_toDigits, Nat.add_mul, hv, Nat.mul_right_comm, ← Nat.add_mul, hu]

theorem isNumeral_ofUnits (units : Nat) : IsNumeral (ofUnits units) := by
  rcases ofUnits_cases units with ⟨hd, _⟩ | ⟨whole, fraction, hw, hf, he, _⟩
  case inl => exact .whole hd
  case inr => exact he ▸ .fraction hw hf

theorem read?_ofUnits (units : Nat) :
    read? (ofUnits units) = some (Double.nearest units Decimal.one) := by
  rcases ofUnits_cases units with ⟨hd, hv⟩ | ⟨whole, fraction, hw, hf, he, hv⟩
  case inl => rw [hd.read?, ← Double.nearest_mul_right _ _ Decimal.one_pos, hv, Nat.one_mul]
  case inr =>
    have hp : 0 < 10 ^ fraction.length := Nat.pow_pos (by decide)
    rw [he, hw.read?_fraction hf, ← Double.nearest_mul_right _ _ Decimal.one_pos, hv, Nat.pow_eq,
      Nat.mul_comm _ Decimal.one, Double.nearest_mul_right _ _ hp]

section Write

variable {x : Float}

theorem write_of_isFinite (h : x.isFinite) (hn : Double.isNegative x = false) :
    write x = String.ofList (ofUnits (shortest (Double.magnitudeBits x))) := by
  have hl := (Double.isFinite_iff x).mp h
  rw [write, hn, if_neg (Nat.not_lt.mpr <| Nat.le_of_lt hl), if_neg (Nat.ne_of_lt hl),
    if_neg Bool.false_ne_true, List.nil_append]

theorem isNumeral_write (h : x.isFinite) (hn : Double.isNegative x = false) :
    IsNumeral (write x).toList := by
  rw [write_of_isFinite h hn, String.toList_ofList]
  exact isNumeral_ofUnits _

-- The digits that are written are as few as read back, but they do read back, and the number that
-- they are read as is the one they were written for, bit for bit.
theorem read?_write (h : x.isFinite) (hn : Double.isNegative x = false) :
    read? (write x).toList = some x := by
  have hl := Nat.le_of_lt <| (Double.isFinite_iff x).mp h
  rw [write_of_isFinite h hn, String.toList_ofList, read?_ofUnits, Double.nearest,
    Decimal.nearestBits_shortest hl, Double.ofBits_magnitudeBits hn]

theorem isNegative_of_read? {text : List Char} (ht : IsNumeral text) (h : read? text = some x) :
    Double.isNegative x = false := by
  have ⟨num, den, hx⟩ := ht.exists_read?
  cases h.symm.trans hx
  exact Double.isNegative_nearest num den

end Write
end Numeral
end Lox
