import Mathlib.Data.List.Nodup
import Mathlib.Data.List.Perm.Basic
import Mathlib.Logic.Equiv.Basic
import Mathlib.Order.MinMax

namespace ECE385.Sorting.Bubble

variable {α : Type*} [LinearOrder α]

/-- Put the items `j` and `j + 1` of a table in order. -/
def exchange (f : Nat → α) (j : Nat) : Nat → α :=
  if f (j + 1) < f j then f ∘ Equiv.swap j (j + 1) else f

/-- Exchange the first `m` adjacent pairs, from the bottom up. -/
def sweep (f : Nat → α) : Nat → Nat → α
  | 0 => f
  | m + 1 => exchange (sweep f m) m

def values (n : Nat) (f : Nat → α) : List α := (List.range n).map f

/-- Of the first `n` items, those from `m` on are where they belong. -/
def Settled (n m : Nat) (f : Nat → α) : Prop := ∀ i j, i < j → m ≤ j → j < n → f i ≤ f j

variable {f : Nat → α} {n m : Nat}

theorem exchange_of_le {j : Nat} (h : f j ≤ f (j + 1)) : exchange f j = f := if_neg (not_lt.mpr h)

theorem exchange_of_lt {j : Nat} (h : f (j + 1) < f j) : exchange f j = f ∘ Equiv.swap j (j + 1) := if_pos h

theorem exchange_other {j i : Nat} (hj : i ≠ j) (hj' : i ≠ j + 1) : exchange f j i = f i := by
  rw [exchange]
  split
  · rw [Function.comp_apply, Equiv.swap_apply_of_ne_of_ne hj hj']
  · rfl

theorem exchange_left (j : Nat) : exchange f j j = min (f j) (f (j + 1)) := by
  rcases lt_or_ge (f (j + 1)) (f j) with h | h
  · rw [exchange_of_lt h, Function.comp_apply, Equiv.swap_apply_left, min_eq_right h.le]
  · rw [exchange_of_le h, min_eq_left h]

theorem exchange_right (j : Nat) : exchange f j (j + 1) = max (f j) (f (j + 1)) := by
  rcases lt_or_ge (f (j + 1)) (f j) with h | h
  · rw [exchange_of_lt h, Function.comp_apply, Equiv.swap_apply_right, max_eq_left h.le]
  · rw [exchange_of_le h, max_eq_right h]

theorem map_swap_range {i j : Nat} (hi : i < n) (hj : j < n) :
    ((List.range n).map (Equiv.swap i j)).Perm (List.range n) := by
  refine (List.perm_ext_iff_of_nodup (List.nodup_range.map (Equiv.injective _)) List.nodup_range).mpr ?_
  intro k
  have hlt {k : Nat} (hk : k < n) : Equiv.swap i j k < n := by
    rw [Equiv.swap_apply_def]
    split
    · exact hj
    · split
      · exact hi
      · exact hk
  rw [List.mem_map, List.mem_range]
  constructor
  · rintro ⟨k', hk', rfl⟩
    exact hlt (List.mem_range.mp hk')
  · intro hk
    exact ⟨Equiv.swap i j k, List.mem_range.mpr (hlt hk), Equiv.swap_apply_self ..⟩

theorem values_exchange {j : Nat} (hj : j + 1 < n) : (values n (exchange f j)).Perm (values n f) := by
  rw [exchange, values]
  split
  · rw [← List.map_map]
    exact (map_swap_range (Nat.lt_of_succ_lt hj) hj).map f
  · exact .refl _

theorem values_sweep (hm : m < n) : (values n (sweep f m)).Perm (values n f) := by
  induction m with
  | zero => exact .refl _
  | succ m ih => exact (values_exchange hm).trans (ih (Nat.lt_of_succ_lt hm))

theorem sweep_above {i : Nat} (hi : m < i) : sweep f m i = f i := by
  induction m with
  | zero => rfl
  | succ m ih => rw [sweep, exchange_other (by omega) (by omega), ih (by omega)]

theorem le_sweep_top {i : Nat} (hi : i ≤ m) : sweep f m i ≤ sweep f m m := by
  induction m generalizing i with
  | zero => rw [Nat.le_zero.mp hi]
  | succ m ih =>
      rw [sweep, exchange_right]
      rcases Nat.lt_or_eq_of_le hi with hlt | rfl
      · rcases Nat.lt_or_eq_of_le (Nat.le_of_lt_succ hlt) with hlt | rfl
        · rw [exchange_other (by omega) (by omega)]
          exact (ih (Nat.le_of_lt hlt)).trans (le_max_left ..)
        · rw [exchange_left]
          exact min_le_max
      · rw [exchange_right]

theorem exists_sweep_eq {i : Nat} (hi : i ≤ m) : ∃ k, k ≤ m ∧ sweep f m i = f k := by
  have hmem : sweep f m i ∈ values (m + 1) (sweep f m) :=
    List.mem_map_of_mem (List.mem_range.mpr (Nat.lt_succ_of_le hi))
  rw [(values_sweep (Nat.lt_succ_self m)).mem_iff] at hmem
  obtain ⟨k, hk, heq⟩ := List.mem_map.mp hmem
  exact ⟨k, Nat.le_of_lt_succ (List.mem_range.mp hk), heq.symm⟩

theorem settled_sweep (h : Settled n (m + 1) f) : Settled n m (sweep f m) := by
  intro i j hij hmj hjn
  rcases Nat.lt_or_eq_of_le hmj with hlt | rfl
  · rw [sweep_above hlt]
    by_cases hi : i ≤ m
    · obtain ⟨k, hk, heq⟩ := exists_sweep_eq (f := f) hi
      rw [heq]
      exact h k j (by omega) hlt hjn
    · rw [sweep_above (by omega)]
      exact h i j hij hlt hjn
  · exact le_sweep_top hij.le

theorem settled_all (f : Nat → α) : Settled n n f := fun _ _ _ hle hlt => absurd hlt (by omega)

theorem exchange_settled {j : Nat} (h : Settled n 1 f) (hj : j + 1 < n) : exchange f j = f :=
  exchange_of_le (h j (j + 1) (Nat.lt_succ_self j) (Nat.succ_pos j) hj)

theorem values_sorted (h : Settled n 1 f) : (values n f).Pairwise (· ≤ ·) := by
  rw [values, List.pairwise_map]
  refine List.Pairwise.imp_of_mem ?_ List.pairwise_lt_range
  intro i j _ hj hij
  exact h i j hij (by omega) (List.mem_range.mp hj)

end ECE385.Sorting.Bubble
