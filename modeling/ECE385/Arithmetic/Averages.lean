import Mathlib.Algebra.Order.BigOperators.Group.List
import Mathlib.Data.BitVec

namespace ECE385.Arithmetic.Averages

/-- A mean of `n` samples in which each of them is divided before the sum. -/
def floorSum (n : Nat) (xs : List Int) : Int := (xs.map (· / (n : Int))).sum

/-- What the floors leave of the mean of the samples. -/
structure FloorMean (xs : List Int) (out : Int) : Prop where
  sum : out = floorSum xs.length xs
  le_mean : xs.length * out ≤ xs.sum
  mean_lt : xs.sum < xs.length * (out + xs.length)
  min_le : ∃ x ∈ xs, x - (xs.length - 1) ≤ out
  le_max : ∃ x ∈ xs, out ≤ x

section Floors

variable {n : Nat} (hn : 0 < n) (xs : List Int)

include hn

theorem mul_floorSum_le : n * floorSum n xs ≤ xs.sum := by
  induction xs with
  | nil => exact (Int.mul_zero _).le
  | cons x xs ih =>
      have hdiv : (n : Int) * (x / n) ≤ x := Int.mul_ediv_self_le (by omega)
      rw [floorSum, List.map_cons, List.sum_cons, List.sum_cons, Int.mul_add]
      exact Int.add_le_add hdiv ih

theorem sum_le_mul_floorSum : xs.sum ≤ n * floorSum n xs + xs.length * (n - 1) := by
  induction xs with
  | nil => exact Int.add_nonneg (Int.mul_nonneg (by omega) le_rfl) (Int.mul_nonneg le_rfl (by omega))
  | cons x xs ih =>
      have hdiv : x < n * (x / n) + n := Int.lt_mul_ediv_self_add (by omega)
      rw [floorSum] at ih
      rw [floorSum, List.map_cons, List.sum_cons, List.sum_cons, List.length_cons, Nat.cast_succ, Int.mul_add,
        Int.add_mul]
      omega

theorem mul_le_floorSum {q : Int} (h : ∀ x ∈ xs, n * q ≤ x) : xs.length * q ≤ floorSum n xs := by
  have hterms : ∀ y ∈ xs.map (· / (n : Int)), q ≤ y := by
    intro y hy
    obtain ⟨x, hx, rfl⟩ := List.mem_map.mp hy
    exact Int.le_ediv_of_mul_le (by omega) (by rw [Int.mul_comm]; exact h x hx)
  have hsum := List.card_nsmul_le_sum _ q hterms
  rwa [List.length_map, nsmul_eq_mul] at hsum

end Floors

theorem floorMean_floorSum {xs : List Int} (h : xs ≠ []) : FloorMean xs (floorSum xs.length xs) := by
  have hn : 0 < xs.length := List.length_pos_iff.mpr h
  have hle := mul_floorSum_le hn xs
  have hge := sum_le_mul_floorSum hn xs
  rw [← Int.mul_add] at hge
  refine ⟨rfl, hle, ?_, ?_, ?_⟩
  · exact Int.lt_of_le_of_lt hge (Int.mul_lt_mul_of_pos_left (by omega) (by omega))
  · by_contra hmin
    have hmin' : ∀ x ∈ xs, floorSum xs.length xs + xs.length ≤ x := by
      intro x hx
      have hx' : ¬x - (xs.length - 1) ≤ floorSum xs.length xs := fun hle => hmin ⟨x, hx, hle⟩
      omega
    have hsum := List.card_nsmul_le_sum xs _ hmin'
    rw [nsmul_eq_mul] at hsum
    have hcontra := Int.le_of_mul_le_mul_left (Int.le_trans hsum hge) (by omega)
    omega
  · by_contra hmax
    have hmax' : ∀ x ∈ xs, x ≤ floorSum xs.length xs - 1 := by
      intro x hx
      have hx' : ¬floorSum xs.length xs ≤ x := fun hle => hmax ⟨x, hx, hle⟩
      omega
    have hsum := List.sum_le_card_nsmul xs _ hmax'
    rw [nsmul_eq_mul] at hsum
    have hcontra := Int.le_of_mul_le_mul_left (Int.le_trans hle hsum) (by omega)
    omega

theorem floorSum_cons (n : Nat) (x : Int) (xs : List Int) : floorSum n (x :: xs) = x / n + floorSum n xs := by
  rw [floorSum, List.map_cons, List.sum_cons, floorSum]

theorem floorSum_append (n : Nat) (xs ys : List Int) : floorSum n (xs ++ ys) = floorSum n xs + floorSum n ys := by
  rw [floorSum, List.map_append, List.sum_append, floorSum, floorSum]

/-- A window that leaves out its second sample reaches back one sample further, so
the two samples have to have the same share. -/
theorem floorSum_skip_iff (n m : Nat) (x : Nat → Int) :
    floorSum n (x 0 :: (List.range (m + 1)).map fun j => x (j + 2)) = floorSum n ((List.range (m + 2)).map x) ↔
      x 1 / n = x (m + 2) / n := by
  have hskipped : (List.range (m + 1)).map (fun j => x (j + 2)) =
      (List.range m).map (fun j => x (j + 2)) ++ [x (m + 2)] := by
    rw [List.range_succ, List.map_append, List.map_singleton]
  have hwhole : (List.range (m + 2)).map x = x 0 :: x 1 :: (List.range m).map fun j => x (j + 2) := by
    rw [List.range_succ_eq_map, List.range_succ_eq_map, List.map_cons, List.map_cons, List.map_cons, List.map_map,
      List.map_map]
    rfl
  have hnil : floorSum n [] = 0 := rfl
  rw [hskipped, hwhole, floorSum_cons, floorSum_append, floorSum_cons, floorSum_cons, floorSum_cons, hnil]
  constructor <;> intro h <;> omega

section Words

variable {w : Nat}

theorem foldl_add_ofInt (vs : List (BitVec w)) (x : Int) :
    vs.foldl (· + ·) (BitVec.ofInt w x) = BitVec.ofInt w (x + (vs.map BitVec.toInt).sum) := by
  induction vs generalizing x with
  | nil => rw [List.map_nil, List.sum_nil, Int.add_zero, List.foldl_nil]
  | cons v vs ih =>
      have hv : BitVec.ofInt w x + v = BitVec.ofInt w (x + v.toInt) := by rw [BitVec.ofInt_add, BitVec.ofInt_toInt]
      rw [List.foldl_cons, hv, ih, List.map_cons, List.sum_cons, Int.add_assoc]

theorem toInt_sshiftRight_ediv (v : BitVec w) (k : Nat) : (v.sshiftRight k).toInt = v.toInt / (2 ^ k : Nat) := by
  rw [BitVec.toInt_sshiftRight, Int.shiftRight_eq_div_pow]

theorem floorSum_toInt_bounds {k : Nat} (hk : k < w) {vs : List (BitVec w)} (hlength : vs.length = 2 ^ k) :
    -2 ^ (w - 1) ≤ floorSum (2 ^ k) (vs.map BitVec.toInt) ∧ floorSum (2 ^ k) (vs.map BitVec.toInt) < 2 ^ (w - 1) := by
  have hpos := Nat.two_pow_pos k
  have hlength' : (vs.map BitVec.toInt).length = 2 ^ k := by rw [List.length_map, hlength]
  have hsplit : ((2 ^ k : Nat) : Int) * -2 ^ (w - 1 - k) = -2 ^ (w - 1) := by
    rw [Nat.cast_pow, Nat.cast_ofNat, Int.mul_neg, ← Int.pow_add, Nat.add_sub_cancel' (Nat.le_sub_one_of_lt hk)]
  constructor
  · have hterms : ∀ x ∈ vs.map BitVec.toInt, ((2 ^ k : Nat) : Int) * -2 ^ (w - 1 - k) ≤ x := by
      intro x hx
      obtain ⟨v, _, rfl⟩ := List.mem_map.mp hx
      rw [hsplit]
      exact BitVec.le_toInt v
    have hlow := mul_le_floorSum hpos _ hterms
    rwa [hlength', hsplit] at hlow
  · have hnonempty : vs.map BitVec.toInt ≠ [] := List.ne_nil_of_length_pos (by omega)
    have hmean := floorMean_floorSum hnonempty
    rw [hlength'] at hmean
    obtain ⟨x, hx, hle⟩ := hmean.le_max
    obtain ⟨v, _, rfl⟩ := List.mem_map.mp hx
    exact Int.lt_of_le_of_lt hle (BitVec.toInt_lt)

/-- The sum of `2^k` words that are shifted right by `k` before they are added
fits in a word. -/
theorem toInt_sum_sshiftRight {k : Nat} (hk : k < w) (v : BitVec w) (vs : List (BitVec w))
    (hlength : vs.length + 1 = 2 ^ k) :
    ((vs.map (·.sshiftRight k)).foldl (· + ·) (v.sshiftRight k)).toInt =
      floorSum (2 ^ k) ((v :: vs).map BitVec.toInt) := by
  have hterms : ((vs.map (·.sshiftRight k)).map BitVec.toInt) =
      (vs.map BitVec.toInt).map (· / ((2 ^ k : Nat) : Int)) := by
    rw [List.map_map, List.map_map]
    exact List.map_congr_left fun u _ => toInt_sshiftRight_ediv u k
  have hsum : (v.sshiftRight k).toInt + ((vs.map (·.sshiftRight k)).map BitVec.toInt).sum =
      floorSum (2 ^ k) ((v :: vs).map BitVec.toInt) := by
    rw [hterms, toInt_sshiftRight_ediv, floorSum, List.map_cons, List.map_cons, List.sum_cons]
  have hcons : (v :: vs).length = 2 ^ k := hlength
  obtain ⟨hlow, hhigh⟩ := floorSum_toInt_bounds hk hcons
  rw [← BitVec.ofInt_toInt (x := v.sshiftRight k), foldl_add_ofInt, hsum,
    BitVec.toInt_ofInt_eq_self (Nat.zero_lt_of_lt hk) hlow hhigh]

end Words

end ECE385.Arithmetic.Averages
