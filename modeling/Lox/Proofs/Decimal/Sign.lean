import Lox.Proofs.Decimal.Writing

namespace Lox

namespace Double

open Float.Model (Format.binary64)
open Float.Model.UnpackedFloat (Sign unpack pack packComponents unpackSign unpackExponent
  unpackMantissa unpackExponent_packComponents unpackMantissa_packComponents
  unpackSign_packComponents packComponents_unpackSign_unpackExponent_unpackMantissa
  pack_unpack_of_valid)

variable {x : Float} {e : BitVec 11}

theorem toNat_packComponents (s : Sign) (e : BitVec 11) (m : BitVec 52) :
    (packComponents Format.binary64 s e m).toNat =
      s.toBitVec.toNat * 2 ^ 63 + (e.toNat * 2 ^ 52 + m.toNat) := by
  have hs : (s.toBitVec ++ e).toNat = s.toBitVec.toNat * 2 ^ 11 + e.toNat := by
    rw [BitVec.toNat_append, ← Nat.shiftLeft_add_eq_or_of_lt e.isLt, Nat.shiftLeft_eq]
  have hm : (packComponents Format.binary64 s e m).toNat =
      (s.toBitVec ++ e).toNat * 2 ^ 52 + m.toNat := by
    rw [packComponents, BitVec.toNat_append, ← Nat.shiftLeft_add_eq_or_of_lt m.isLt,
      Nat.shiftLeft_eq]
  rw [hm, hs]
  omega

theorem neg_unpack (s : Sign) (m : BitVec 52) (h : e ≠ -1#11) :
    (unpack Format.binary64 (packComponents Format.binary64 s e m)).neg =
      unpack Format.binary64 (packComponents Format.binary64 (-s) e m) := by
  simp only [unpack, unpackExponent_packComponents, unpackMantissa_packComponents,
    unpackSign_packComponents, Float.Model.UnpackedFloat.Sign.ofBitVec_toBitVec]
  rw [if_neg h, if_neg h]
  split
  case isTrue => split <;> rfl
  case isFalse => rfl

-- A finite number is made of its sign, an exponent and a fraction, and its opposite of the other
-- sign and the same two. So the numbers differ in one bit, and what is written for them in a dash.
theorem exists_components (h : x.isFinite) : ∃ s e m,
    x.toBits.toBitVec = packComponents Format.binary64 s e m ∧
      (-x).toBits.toBitVec = packComponents Format.binary64 (-s) e m := by
  have hx := @packComponents_unpackSign_unpackExponent_unpackMantissa Format.binary64
    x.toBits.toBitVec
  have he : @unpackExponent Format.binary64 x.toBits.toBitVec ≠ -1#11 :=
    (isFinite_unpack_iff _).mp h
  generalize Sign.ofBitVec _ = s at hx
  generalize @unpackExponent Format.binary64 x.toBits.toBitVec = e at hx he
  generalize @unpackMantissa Format.binary64 x.toBits.toBitVec = m at hx
  refine ⟨s, e, m, hx.symm, ?_⟩
  have hv : Format.binary64.Valid (packComponents Format.binary64 (-s) e m) :=
    ⟨fun hn => absurd ((unpackExponent_packComponents).symm.trans hn) he⟩
  calc (-x).toBits.toBitVec
    _ = pack Format.binary64 (unpack Format.binary64 x.toBits.toBitVec).neg := rfl
    _ = pack Format.binary64
        (unpack Format.binary64 (packComponents Format.binary64 (-s) e m)) := by
      rw [← hx, neg_unpack s m he]
    _ = packComponents Format.binary64 (-s) e m := pack_unpack_of_valid hv

section Components

variable {s : Sign} {m : BitVec 52}

theorem isNegative_of_components (h : x.toBits.toBitVec = packComponents Format.binary64 s e m) :
    isNegative x = (s == .negative) := by
  have hx : x.toBits.toNat = _ := (congrArg BitVec.toNat h).trans <| toNat_packComponents s e m
  have he : e.toNat < 2 ^ 11 := e.isLt
  have hm : m.toNat < 2 ^ 52 := m.isLt
  rw [isNegative, hx, Nat.pow_eq]
  cases s
  case negative =>
    have hs : Sign.negative.toBitVec.toNat = 1 := rfl
    exact decide_eq_true (by omega)
  case positive =>
    have hs : Sign.positive.toBitVec.toNat = 0 := rfl
    exact decide_eq_false (by omega)

theorem magnitudeBits_of_components (h : x.toBits.toBitVec = packComponents Format.binary64 s e m) :
    magnitudeBits x = e.toNat * 2 ^ 52 + m.toNat := by
  have hx : x.toBits.toNat = _ := (congrArg BitVec.toNat h).trans <| toNat_packComponents s e m
  have he : e.toNat < 2 ^ 11 := e.isLt
  have hm : m.toNat < 2 ^ 52 := m.isLt
  rw [magnitudeBits, hx, Nat.pow_eq]
  omega

end Components

theorem isNegative_neg (h : x.isFinite) : isNegative (-x) = !isNegative x := by
  have ⟨s, e, m, hx, hn⟩ := exists_components h
  rw [isNegative_of_components hx, isNegative_of_components hn]
  cases s <;> rfl

theorem magnitudeBits_neg (h : x.isFinite) : magnitudeBits (-x) = magnitudeBits x := by
  have ⟨s, e, m, hx, hn⟩ := exists_components h
  rw [magnitudeBits_of_components hx, magnitudeBits_of_components hn]

theorem isFinite_neg (h : x.isFinite) : (-x).isFinite := by
  rw [isFinite_iff, magnitudeBits_neg h]
  exact (isFinite_iff x).mp h

theorem eq_of_magnitudeBits {x y : Float} (hs : isNegative x = isNegative y)
    (hm : magnitudeBits x = magnitudeBits y) : x = y := by
  have hx : x.toBits.toNat < 2 ^ 64 := x.toBits.toNat_lt
  have hy : y.toBits.toNat < 2 ^ 64 := y.toBits.toNat_lt
  simp only [isNegative, magnitudeBits, Nat.pow_eq, decide_eq_decide] at hs hm
  exact Float.toBits_inj.mp <| UInt64.toNat_inj.mp <| by omega

theorem neg_neg_of_isFinite (h : x.isFinite) : - -x = x := by
  have hn := isFinite_neg h
  refine eq_of_magnitudeBits ?_ ?_
  case refine_1 => rw [isNegative_neg hn, isNegative_neg h, Bool.not_not]
  case refine_2 => rw [magnitudeBits_neg hn, magnitudeBits_neg h]

end Double

namespace Numeral

variable {x : Float}

theorem write_of_isNegative (h : x.isFinite) (hn : Double.isNegative x) :
    (write x).toList = '-' :: (write (-x)).toList := by
  have hl := (Double.isFinite_iff x).mp h
  have hn' : Double.isNegative (-x) = false := by rw [Double.isNegative_neg h, hn, Bool.not_true]
  rw [write_of_isFinite (Double.isFinite_neg h) hn', Double.magnitudeBits_neg h, write, hn,
    if_neg (Nat.not_lt.mpr <| Nat.le_of_lt hl), if_neg (Nat.ne_of_lt hl), if_pos rfl,
    String.toList_ofList, String.toList_ofList]
  rfl

end Numeral
end Lox
