import Mathlib.Data.BitVec
import Mathlib.Tactic.Ring

namespace ECE385.Arithmetic.Shifts

section Masks

variable {w : Nat} (v : BitVec w) (k : Nat)

theorem allOnes_shiftLeft_and : BitVec.allOnes w <<< k &&& v = v >>> k <<< k := by
  ext i hi
  by_cases hk : i < k
  · simp [hk]
  · simp [hk, Nat.add_sub_cancel' (Nat.le_of_not_lt hk), hi]

theorem allOnes_shiftLeft_and_eq_zero : BitVec.allOnes w <<< k &&& v = 0 ↔ v.toNat < 2 ^ k := by
  have hle : v.toNat / 2 ^ k * 2 ^ k ≤ v.toNat := Nat.div_mul_le_self ..
  have hvalue : (v >>> k <<< k).toNat = v.toNat / 2 ^ k * 2 ^ k := by
    rw [BitVec.toNat_shiftLeft, BitVec.toNat_ushiftRight, Nat.shiftLeft_eq, Nat.shiftRight_eq_div_pow,
      Nat.mod_eq_of_lt (Nat.lt_of_le_of_lt hle v.isLt)]
  have hzero : (0 : BitVec w).toNat = 0 := BitVec.toNat_zero
  have hpos := Nat.two_pow_pos k
  rw [allOnes_shiftLeft_and, ← BitVec.toNat_inj, hvalue, hzero, Nat.mul_eq_zero, Nat.div_eq_zero_iff]
  omega

end Masks

/-- How often a shift by `k` carries `x` round the words of width `w`. -/
def wraps (w k : Nat) (x : Int) : Int := (x + 2 ^ (w - 1 - k)) / 2 ^ (w - k)

/-- What is left of `x` when its rounds are taken off. -/
def centred (w k : Nat) (x : Int) : Int := x - 2 ^ (w - k) * wraps w k x

theorem ofInt_two_pow (w : Nat) : BitVec.ofInt w (2 ^ w) = 0#w := by
  have hcast : (2 : Int) ^ w = ((2 ^ w : Nat) : Int) := rfl
  rw [hcast, BitVec.ofInt_natCast]
  exact BitVec.eq_of_toNat_eq (Nat.mod_self _)

theorem shiftLeft_eq_ofInt {w : Nat} (v : BitVec w) (k : Nat) : v <<< k = BitVec.ofInt w (2 ^ k * v.toInt) := by
  have hcast : (2 : Int) ^ k = ((2 ^ k : Nat) : Int) := rfl
  rw [BitVec.ofInt_mul, BitVec.ofInt_toInt, hcast, BitVec.ofInt_natCast, BitVec.mul_comm,
    BitVec.shiftLeft_eq_mul_twoPow]
  congr 1
  exact BitVec.eq_of_toNat_eq (BitVec.toNat_twoPow w k)

section Signed

variable {w k : Nat} (hk : k < w)

include hk

theorem two_pow_sub : (2 : Int) ^ (w - k) = 2 * 2 ^ (w - 1 - k) := by
  obtain ⟨d, rfl⟩ := Nat.exists_eq_add_of_lt hk
  have hfull : k + d + 1 - k = d + 1 := by omega
  have hhalf : k + d + 1 - 1 - k = d := by omega
  rw [hfull, hhalf, Int.pow_succ, Int.mul_comm]

theorem centred_bounds (x : Int) : -2 ^ (w - 1 - k) ≤ centred w k x ∧ centred w k x < 2 ^ (w - 1 - k) := by
  have hpos : (0 : Int) < 2 ^ (w - 1 - k) := Int.pow_pos (by decide)
  rw [centred, wraps, two_pow_sub hk]
  generalize (2 : Int) ^ (w - 1 - k) = h at *
  have hdivision := Int.mul_ediv_add_emod (x + h) (2 * h)
  have hnonneg := Int.emod_nonneg (x + h) (b := 2 * h) (by omega)
  have hlt := Int.emod_lt_of_pos (x + h) (b := 2 * h) (by omega)
  omega

theorem wraps_eq_zero {x : Int} (h : -2 ^ (w - 1 - k) ≤ x) (h' : x < 2 ^ (w - 1 - k)) : wraps w k x = 0 := by
  rw [wraps, two_pow_sub hk]
  exact Int.ediv_eq_zero_of_lt (by omega) (by omega)

/-- A left shift keeps the lower bits, so what it takes to the signed word is
the multiple of what remains of the operand without its rounds. -/
theorem toInt_shiftLeft_centred (v : BitVec w) : (v <<< k).toInt = 2 ^ k * centred w k v.toInt := by
  obtain ⟨hlow, hhigh⟩ := centred_bounds hk v.toInt
  have hpos : (0 : Int) < 2 ^ k := Int.pow_pos (by decide)
  have hhalf : (2 : Int) ^ (w - 1) = 2 ^ k * 2 ^ (w - 1 - k) := by
    rw [← Int.pow_add, Nat.add_sub_cancel' (Nat.le_sub_one_of_lt hk)]
  have hfull : (2 : Int) ^ w = 2 ^ k * 2 ^ (w - k) := by rw [← Int.pow_add, Nat.add_sub_cancel' hk.le]
  have hsplit : 2 ^ k * v.toInt = 2 ^ k * centred w k v.toInt + 2 ^ w * wraps w k v.toInt := by
    rw [hfull, centred]
    ring
  rw [shiftLeft_eq_ofInt, hsplit, BitVec.ofInt_add, BitVec.ofInt_mul (x := 2 ^ w), ofInt_two_pow, BitVec.zero_mul,
    BitVec.add_zero, BitVec.toInt_ofInt_eq_self (Nat.zero_lt_of_lt hk)]
  · rw [hhalf, ← Int.mul_neg]
    exact Int.mul_le_mul_of_nonneg_left hlow hpos.le
  · rw [hhalf]
    exact Int.mul_lt_mul_of_pos_left hhigh hpos

theorem centred_of_bounds {x : Int} (h : -2 ^ (w - 1 - k) ≤ x) (h' : x < 2 ^ (w - 1 - k)) : centred w k x = x := by
  rw [centred, wraps_eq_zero hk h h', Int.mul_zero, Int.sub_zero]

theorem centred_above : centred w k (2 ^ (w - 1 - k)) = -2 ^ (w - 1 - k) := by
  have hpos : (0 : Int) < 2 ^ (w - 1 - k) := Int.pow_pos (by decide)
  have hwraps : wraps w k (2 ^ (w - 1 - k)) = 1 := by
    rw [wraps, two_pow_sub hk, ← Int.two_mul, Int.ediv_self (by omega)]
  rw [centred, hwraps, two_pow_sub hk]
  omega

theorem centred_below : centred w k (-2 ^ (w - 1 - k) - 1) = 2 ^ (w - 1 - k) - 1 := by
  have hpos : (0 : Int) < 2 ^ (w - 1 - k) := Int.pow_pos (by decide)
  have hwraps : wraps w k (-2 ^ (w - 1 - k) - 1) = -1 := by
    have hcancel : -(2 : Int) ^ (w - 1 - k) - 1 + 2 ^ (w - 1 - k) = -1 := by omega
    rw [wraps, two_pow_sub hk, hcancel, Int.neg_one_ediv, Int.sign_eq_one_of_pos (by omega)]
  rw [centred, hwraps, two_pow_sub hk]
  omega

theorem sign_shiftLeft (v : BitVec w) : (v <<< k).toInt.sign = (centred w k v.toInt).sign := by
  rw [toInt_shiftLeft_centred hk, Int.sign_mul, Int.sign_eq_one_of_pos (Int.pow_pos (by decide)), Int.one_mul]

/-- A left shift keeps the order and the sign of all the words of a level exactly
when it carries none of them round. -/
theorem shiftLeft_level_iff {lo hi : Int} (hmin : -2 ^ (w - 1) ≤ lo) (hlo : lo ≤ 0) (hhi : 0 ≤ hi)
    (hmax : hi < 2 ^ (w - 1)) :
    (∀ v u : BitVec w, lo ≤ v.toInt → v.toInt ≤ u.toInt → u.toInt ≤ hi →
        (v <<< k).toInt ≤ (u <<< k).toInt ∧ (v <<< k).toInt.sign = v.toInt.sign) ↔
      -2 ^ (w - 1 - k) ≤ lo ∧ hi < 2 ^ (w - 1 - k) := by
  have hpos : (0 : Int) < 2 ^ (w - 1 - k) := Int.pow_pos (by decide)
  have hword {x : Int} (h : lo ≤ x) (h' : x ≤ hi) : (BitVec.ofInt w x).toInt = x :=
    BitVec.toInt_ofInt_eq_self (Nat.zero_lt_of_lt hk) (hmin.trans h) (h'.trans_lt hmax)
  constructor
  · intro h
    constructor
    · by_contra hlow
      have hneg : -(2 : Int) ^ (w - 1 - k) - 1 < 0 := by omega
      have hx := hword (x := -2 ^ (w - 1 - k) - 1) (by omega) (by omega)
      have hsign := (h _ _ (by rw [hx]; omega) le_rfl (by rw [hx]; omega)).2
      rw [sign_shiftLeft hk, hx, centred_below hk, Int.sign_eq_neg_one_of_neg hneg,
        Int.sign_eq_neg_one_iff_neg] at hsign
      omega
    · by_contra hhigh
      have hx := hword (x := 2 ^ (w - 1 - k)) (by omega) (by omega)
      have hsign := (h _ _ (by rw [hx]; omega) le_rfl (by rw [hx]; omega)).2
      rw [sign_shiftLeft hk, hx, centred_above hk, Int.sign_eq_one_of_pos hpos, Int.sign_eq_one_iff_pos] at hsign
      omega
  · rintro ⟨hlow, hhigh⟩ v u hv hvu hu
    rw [sign_shiftLeft hk, toInt_shiftLeft_centred hk, toInt_shiftLeft_centred hk,
      centred_of_bounds hk (by omega) (by omega), centred_of_bounds hk (by omega) (by omega)]
    exact ⟨Int.mul_le_mul_of_nonneg_left hvu (Int.pow_pos (by decide)).le, rfl⟩

end Signed

end ECE385.Arithmetic.Shifts
