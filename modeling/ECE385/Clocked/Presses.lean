import Mathlib.Algebra.BigOperators.Group.Finset.Basic
import ECE385.Clocked.Machine

namespace ECE385.Clocked.Presses

/-- The level goes up with sample `n`. Before the first sample it was low. -/
def rises (x : Nat → Bool) : Nat → Bool
  | 0 => x 0
  | n + 1 => x (n + 1) && !x n

variable {c : Nat → Bool} {v out : Nat → Nat}

def total (c : Nat → Bool) (v : Nat → Nat) (n : Nat) : Nat := ∑ k ∈ (Finset.range n).filter fun k => c k, v k

theorem total_zero (c : Nat → Bool) (v : Nat → Nat) : total c v 0 = 0 := rfl

theorem total_succ (c : Nat → Bool) (v : Nat → Nat) (n : Nat) :
    total c v (n + 1) = total c v n + if c n then v n else 0 := by
  rw [total, Finset.sum_filter, Finset.sum_range_succ, ← Finset.sum_filter]
  rfl

/-- A register that adds modulo `m` at the times that count, and else keeps what it
holds, holds the sum. -/
theorem adds_total {m : Nat} (hstart : out 0 = 0)
    (hstep : ∀ n, out (n + 1) = if c n then (out n + v n) % m else out n) (n : Nat) :
    out n = total c v n % m := by
  induction n with
  | zero => rw [hstart, total_zero, Nat.zero_mod]
  | succ n ih =>
      rw [hstep, total_succ, ih]
      split
      · exact Nat.mod_add_mod ..
      · rfl

end ECE385.Clocked.Presses
