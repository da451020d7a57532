import Mathlib.Data.BitVec
import Mathlib.Logic.Function.Basic

namespace ECE385.Clocked.RingBuffer

variable {α : Type*} {w : Nat}

/-- Behind the write pointer `p` the memory holds the last `2 ^ w - 1` entries
of the history, `h (n - 1)` the newest. Entries before the first are `h 0`. -/
def Holds (mem : BitVec w → α) (p : BitVec w) (h : Nat → α) (n : Nat) : Prop :=
  ∀ j, 0 < j → j < 2 ^ w → mem (p - BitVec.ofNat w j) = h (n - j)

theorem sub_ofNat_ne (p : BitVec w) {j : Nat} (hj : 0 < j) (hlt : j < 2 ^ w) :
    p - BitVec.ofNat w j ≠ p := by
  intro heq
  have hzero : BitVec.ofNat w j = 0#w := sub_eq_self.mp heq
  have hnat := congrArg BitVec.toNat hzero
  rw [BitVec.toNat_ofNat, Nat.mod_eq_of_lt hlt, BitVec.toNat_zero] at hnat
  omega

theorem Holds.push {mem : BitVec w → α} {p : BitVec w} {h : Nat → α} {n : Nat} (hmem : Holds mem p h n) :
    Holds (Function.update mem p (h n)) (p + 1) h (n + 1) := by
  intro j hj hlt
  obtain ⟨j, rfl⟩ := Nat.exists_eq_succ_of_ne_zero (Nat.pos_iff_ne_zero.mp hj)
  have hback : p + 1 - BitVec.ofNat w (j + 1) = p - BitVec.ofNat w j := by
    rw [BitVec.ofNat_add]
    exact add_sub_add_right_eq_sub ..
  rw [hback, Nat.add_sub_add_right]
  rcases Nat.eq_zero_or_pos j with rfl | hpos
  · simp
  · rw [Function.update_of_ne (sub_ofNat_ne p hpos (Nat.lt_of_succ_lt hlt))]
    exact hmem j hpos (Nat.lt_of_succ_lt hlt)

theorem holds_first (p : BitVec w) (h : Nat → α) : Holds (fun _ => h 0) p h 1 := by
  intro j hj _
  rw [Nat.sub_eq_zero_of_le hj]

end ECE385.Clocked.RingBuffer
