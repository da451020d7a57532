import Mathlib.Data.BitVec
import Mathlib.Logic.Function.Iterate

namespace ECE385.Clocked.SerialRegister

variable {n : Nat}

/-- One shift towards the low end, with a new top bit. -/
def shiftIn (b : Bool) (v : BitVec (n + 1)) : BitVec (n + 1) := .cons b (v.extractLsb' 1 n)

theorem getLsbD_shiftIn (b : Bool) (v : BitVec (n + 1)) {i : Nat} (hi : i < n + 1) :
    (shiftIn b v).getLsbD i = if i = n then b else v.getLsbD (i + 1) := by
  rw [shiftIn, BitVec.getLsbD_cons, BitVec.getLsbD_extractLsb', Nat.add_comm 1 i]
  split
  · rfl
  · have hlow : i < n := by omega
    rw [decide_eq_true hlow, Bool.true_and]

def shifted (bs : Nat → Bool) (v : BitVec (n + 1)) : Nat → BitVec (n + 1)
  | 0 => v
  | k + 1 => shiftIn (bs k) (shifted bs v k)

section Shifted

variable (bs : Nat → Bool) (v : BitVec (n + 1))

/-- The old bits move down, and the new ones follow them in their order. -/
theorem getLsbD_shifted {k i : Nat} (hk : k ≤ n + 1) (hi : i < n + 1) :
    (shifted bs v k).getLsbD i = if i + k < n + 1 then v.getLsbD (i + k) else bs (i + k - (n + 1)) := by
  induction k generalizing i with
  | zero => exact (if_pos hi).symm
  | succ k ih =>
      rw [shifted, getLsbD_shiftIn _ _ hi]
      by_cases htop : i = n
      · subst i
        have hindex : n + (k + 1) - (n + 1) = k := by omega
        rw [if_pos rfl, if_neg (by omega), hindex]
      · have hindex : i + 1 + k = i + (k + 1) := by omega
        rw [if_neg htop, ih (Nat.le_of_succ_le hk) (by omega), hindex]

theorem getLsbD_zero_shifted {k : Nat} (hk : k < n + 1) : (shifted bs v k).getLsbD 0 = v.getLsbD k := by
  rw [getLsbD_shifted bs v hk.le (Nat.succ_pos n), Nat.zero_add, if_pos hk]

theorem shifted_full {w : BitVec (n + 1)} (hw : ∀ i, i < n + 1 → w.getLsbD i = bs i) :
    shifted bs v (n + 1) = w := by
  apply BitVec.eq_of_getLsbD_eq
  intro i hi
  rw [getLsbD_shifted bs v le_rfl hi, if_neg (by omega), Nat.add_sub_cancel, hw i hi]

end Shifted

section Serial

variable (p q : Bool → Bool → Bool)

/-- Two registers that shift in bits made of the two that they shift out. -/
def serial (r : BitVec (n + 1) × BitVec (n + 1)) : BitVec (n + 1) × BitVec (n + 1) :=
  (shiftIn (p (r.1.getLsbD 0) (r.2.getLsbD 0)) r.1, shiftIn (q (r.1.getLsbD 0) (r.2.getLsbD 0)) r.2)

/-- As long as the first new bit has not come out again, the bits that go in are
those of the old words. -/
theorem serial_iterate (a b : BitVec (n + 1)) {k : Nat} (hk : k ≤ n + 1) :
    (serial p q)^[k] (a, b) =
      (shifted (fun i => p (a.getLsbD i) (b.getLsbD i)) a k,
        shifted (fun i => q (a.getLsbD i) (b.getLsbD i)) b k) := by
  induction k with
  | zero => rfl
  | succ k ih =>
      rw [Function.iterate_succ_apply', ih (Nat.le_of_succ_le hk), serial, getLsbD_zero_shifted _ a hk,
        getLsbD_zero_shifted _ b hk]
      rfl

theorem serial_word (a b : BitVec (n + 1)) {a' b' : BitVec (n + 1)}
    (ha : ∀ i, i < n + 1 → a'.getLsbD i = p (a.getLsbD i) (b.getLsbD i))
    (hb : ∀ i, i < n + 1 → b'.getLsbD i = q (a.getLsbD i) (b.getLsbD i)) :
    (serial p q)^[n + 1] (a, b) = (a', b') := by
  rw [serial_iterate p q a b le_rfl, shifted_full _ a ha, shifted_full _ b hb]

end Serial

end ECE385.Clocked.SerialRegister
