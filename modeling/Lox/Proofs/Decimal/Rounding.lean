import Lox.Decimal.Shortest

namespace Lox

namespace Double

variable {bits : Nat}

theorem one_pos : 0 < one := by
  rw [one]
  exact Nat.two_pow_pos 1074

theorem roundDiv_mul_right (num den : Nat) {k : Nat} (hk : 0 < k) :
    roundDiv (num * k) (den * k) = roundDiv num den := by
  have hl : 2 * (num % den * k) < den * k ↔ 2 * (num % den) < den := by
    rw [← Nat.mul_assoc, Nat.mul_lt_mul_right hk]
  have hr : den * k < 2 * (num % den * k) ↔ den < 2 * (num % den) := by
    rw [← Nat.mul_assoc, Nat.mul_lt_mul_right hk]
  simp only [roundDiv, Nat.mul_div_mul_right _ _ hk, Nat.mul_mod_mul_right, hl, hr]

theorem roundDiv_mul_self (n : Nat) {k : Nat} (hk : 0 < k) : roundDiv (n * k) k = n := by
  have hz : 2 * (n * k % k) < k := by rwa [Nat.mul_mod_left, Nat.mul_zero]
  rw [roundDiv, if_pos hz, Nat.mul_div_cancel _ hk]

theorem nearestBits_mul_right (num den : Nat) {k : Nat} (hk : 0 < k) :
    nearestBits (num * k) (den * k) = nearestBits num den := by
  have hu : num * k * one = num * one * k := Nat.mul_right_comm ..
  have hd (p : Nat) : den * k * p = den * p * k := Nat.mul_right_comm ..
  simp only [nearestBits, hu, hd, Nat.mul_div_mul_right _ _ hk, roundDiv_mul_right _ _ hk]

theorem nearest_mul_right (num den : Nat) {k : Nat} (hk : 0 < k) :
    nearest (num * k) (den * k) = nearest num den := by
  rw [nearest, nearest, nearestBits_mul_right _ _ hk]

theorem nearestBits_le (num den : Nat) : nearestBits num den ≤ infinity :=
  Nat.min_le_right ..

theorem log2_unitsOfBits (h : fractionSize ≤ bits) :
    (unitsOfBits bits).log2 = 52 + (bits / fractionSize - 1) := by
  have hm : bits % fractionSize < 2 ^ 52 := Nat.mod_lt _ (Nat.two_pow_pos 52)
  have hf : fractionSize = 2 ^ 52 := rfl
  rw [unitsOfBits, if_neg (Nat.not_lt.mpr h)]
  rw [hf] at hm ⊢
  generalize bits % 2 ^ 52 = m at *
  generalize bits / 2 ^ 52 - 1 = shift
  have hp : 0 < 2 ^ shift := Nat.two_pow_pos shift
  have hl : 2 ^ 52 * 2 ^ shift ≤ (2 ^ 52 + m) * 2 ^ shift := Nat.mul_le_mul_right _ (by omega)
  have hu : (2 ^ 52 + m) * 2 ^ shift < 2 ^ 53 * 2 ^ shift := Nat.mul_lt_mul_of_pos_right (by omega) hp
  rw [← Nat.pow_add] at hl hu
  refine (Nat.log2_eq_iff ?_).mpr ⟨hl, Nat.add_right_comm 52 shift 1 ▸ hu⟩
  exact Nat.ne_of_gt <| Nat.lt_of_lt_of_le (Nat.two_pow_pos _) hl

theorem exists_steps (bits : Nat) : ∃ steps, ∃ shift, shift = (unitsOfBits bits).log2 - 52 ∧
    unitsOfBits bits = steps * Nat.pow 2 shift ∧ bits = shift * fractionSize + steps := by
  by_cases hb : bits < fractionSize
  case pos =>
    have hu : unitsOfBits bits = bits := if_pos hb
    have hl : bits.log2 - 52 = 0 := by
      refine Nat.sub_eq_zero_of_le ?_
      by_cases hz : bits = 0
      case pos => simp [hz]
      case neg => exact Nat.le_of_lt <| (Nat.log2_lt hz).mpr hb
    rw [hu, hl]
    exact ⟨bits, 0, rfl, (Nat.mul_one bits).symm, by rw [Nat.zero_mul, Nat.zero_add]⟩
  case neg =>
    have hb := Nat.not_lt.mp hb
    have hp : 1 ≤ bits / fractionSize := Nat.div_pos hb (Nat.two_pow_pos 52)
    have hs := Nat.div_add_mod bits fractionSize
    refine ⟨fractionSize + bits % fractionSize, bits / fractionSize - 1, ?_, ?_, ?_⟩
    case refine_1 => rw [log2_unitsOfBits hb, Nat.add_sub_cancel_left]
    case refine_2 => exact if_neg (Nat.not_lt.mpr hb)
    case refine_3 =>
      rw [← Nat.add_assoc, ← Nat.succ_mul, Nat.succ_eq_add_one, Nat.sub_add_cancel hp, Nat.mul_comm, hs]

-- The double nearest to the value of a double is this double, as a finite magnitude is a whole
-- number of the steps that are used at its size.
theorem nearestBits_unitsOfBits (h : bits ≤ infinity) : nearestBits (unitsOfBits bits) one = bits := by
  have ⟨steps, shift, hs, hu, hb⟩ := exists_steps bits
  have hp : 0 < Nat.pow 2 shift := Nat.two_pow_pos shift
  have hr : roundDiv (unitsOfBits bits * one) (one * Nat.pow 2 shift) = steps := by
    rw [Nat.mul_comm one, roundDiv_mul_right _ _ one_pos, hu, roundDiv_mul_self _ hp]
  simp only [nearestBits, Nat.mul_div_cancel _ one_pos, ← hs, hr, ← hb, Nat.min_eq_left h]

end Double

namespace Decimal

variable {bits : Nat}

theorem pow_ten (n : Nat) : Nat.pow 10 n = Nat.pow 2 n * Nat.pow 5 n :=
  Nat.mul_pow 2 5 n

theorem pow_five_pos (n : Nat) : 0 < Nat.pow 5 n :=
  Nat.pow_pos (by decide)

theorem one_eq : one = Double.one * Nat.pow 5 1074 := by
  rw [one, Double.one, pow_ten]

theorem one_pos : 0 < one := by
  rw [one_eq]
  exact Nat.mul_pos Double.one_pos (pow_five_pos 1074)

theorem readsAs_unitsOfBits (h : bits ≤ Double.infinity) : readsAs bits (unitsOfBits bits) := by
  have hk := pow_five_pos 1074
  rw [readsAs, unitsOfBits, one_eq, Double.nearestBits_mul_right _ _ hk,
    Double.nearestBits_unitsOfBits h, beq_self_eq_true]

-- What the search takes reads back, unless it is the value itself, which reads back as well. That
-- it is short is not needed for this.
theorem reads_search {reads : Nat → Bool} {exact : Nat} (h : reads exact) (power : Nat) :
    reads (search reads exact power) := by
  induction power <;> rw [search]
  case zero => exact h
  case succ power hi =>
    split
    case h_1 hb ha =>
      split
      case isTrue => exact hb
      case isFalse => exact ha
    case h_2 hb _ => exact hb
    case h_3 _ ha => exact ha
    case h_4 => exact hi

theorem nearestBits_shortest (h : bits ≤ Double.infinity) :
    Double.nearestBits (shortest bits) one = bits :=
  beq_iff_eq.mp <| reads_search (readsAs_unitsOfBits h) _

end Decimal
end Lox
