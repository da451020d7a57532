import Mathlib.Data.BitVec

namespace ECE385.Arithmetic.TwosComplement

variable {w : Nat} (v : BitVec w)

theorem getLsbD_eq_mod (k : Nat) : (v.getLsbD k).toNat = v.toNat / 2 ^ k % 2 := by
  rw [BitVec.getLsbD, Nat.toNat_testBit]

/-- Bit `k` of a word is the lowest bit of its signed value shifted right `k` times. -/
theorem toInt_div_mod {k : Nat} (hk : k < w) : v.toInt / 2 ^ k % 2 = (v.getLsbD k).toNat := by
  obtain ⟨d, rfl⟩ := Nat.exists_eq_add_of_lt hk
  have hsplit : ((2 ^ (k + d + 1) : Nat) : Int) = 2 ^ k * (2 * 2 ^ d) := by
    rw [Nat.add_assoc, Nat.pow_add, Nat.pow_succ, Nat.mul_comm (2 ^ d)]
    rfl
  have hne : (2 : Int) ^ k ≠ 0 := Int.ne_of_gt (Int.pow_pos (by decide))
  have hnat : ((v.toNat / 2 ^ k % 2 : Nat) : Int) = (v.toNat : Int) / 2 ^ k % 2 := rfl
  rw [getLsbD_eq_mod, hnat, BitVec.toInt_eq_msb_cond]
  split
  · rw [hsplit, Int.sub_mul_ediv_left _ _ hne]
    omega
  · rfl

/-- Shifted right by `k` places a word is twice what it is shifted by one place
more, plus the bit that lies between. -/
theorem toInt_div_two_pow {k : Nat} (hk : k < w) :
    v.toInt / 2 ^ k = 2 * (v.toInt / 2 ^ (k + 1)) + (v.getLsbD k).toNat := by
  have hhalf : v.toInt / 2 ^ (k + 1) = v.toInt / 2 ^ k / 2 := by
    rw [Int.pow_succ, Int.ediv_ediv_of_nonneg (Int.pow_nonneg (by decide))]
  have hbit := toInt_div_mod v hk
  omega

/-- The sign is what remains of a word when all its other bits are shifted out. -/
theorem toInt_div_sign (hw : 0 < w) : v.toInt / 2 ^ (w - 1) = -((v.getLsbD (w - 1)).toNat : Int) := by
  have hpos : (0 : Int) < 2 ^ (w - 1) := Int.pow_pos (by decide)
  have hlow := BitVec.le_toInt v
  have hhigh := BitVec.toInt_lt (x := v)
  have hbit := toInt_div_mod v (Nat.sub_one_lt_of_lt hw)
  have hquotient : v.toInt / 2 ^ (w - 1) = 0 ∨ v.toInt / 2 ^ (w - 1) = -1 := by
    rcases Int.lt_or_le v.toInt 0 with hneg | hnonneg
    · right
      exact Int.ediv_eq_neg_one_of_neg_of_le hneg (by omega)
    · left
      exact Int.ediv_eq_zero_of_lt hnonneg hhigh
  omega

theorem toNat_append {u : Nat} (v' : BitVec u) : (v ++ v').toNat = v.toNat * 2 ^ u + v'.toNat := by
  rw [BitVec.toNat_append, ← Nat.shiftLeft_add_eq_or_of_lt v'.isLt, Nat.shiftLeft_eq]

theorem toInt_append {u : Nat} (v' : BitVec u) (hw : 0 < w) : (v ++ v').toInt = 2 ^ u * v.toInt + v'.toNat := by
  have hne : (w == 0) ≠ true := by simpa using Nat.pos_iff_ne_zero.mp hw
  rw [BitVec.toInt_append, if_neg hne]

theorem toInt_invert (hw : 0 < w) : (~~~v).toInt = -v.toInt - 1 := by
  have hlt := v.isLt
  rw [BitVec.toInt_eq_msb_cond, BitVec.toInt_eq_msb_cond, BitVec.msb_not, BitVec.toNat_not, decide_eq_true hw]
  cases v.msb with
  | true | false =>
      simp only [Bool.not_true, Bool.not_false, Bool.and_true, Bool.and_false, if_true, if_false,
        Bool.false_eq_true]
      omega

/-- A signed step from an unsigned place is exact as long as it does not wrap. -/
theorem toNat_add_toInt {p : BitVec w} (hlow : 0 ≤ p.toNat + v.toInt)
    (hhigh : p.toNat + v.toInt < (2 ^ w : Nat)) : ((p + v).toNat : Int) = p.toNat + v.toInt := by
  have hp := p.isLt
  have hv := v.isLt
  rw [BitVec.toInt_eq_msb_cond] at hlow hhigh ⊢
  rw [BitVec.toNat_add]
  cases hmsb : v.msb with
  | false =>
      simp only [hmsb, Bool.false_eq_true, if_false] at hhigh ⊢
      rw [Nat.mod_eq_of_lt (by omega), Int.natCast_add]
  | true =>
      simp only [hmsb, if_true] at hlow ⊢
      rw [Nat.mod_eq_sub_mod (by omega), Nat.mod_eq_of_lt (by omega)]
      omega

end ECE385.Arithmetic.TwosComplement
