import Mathlib.Data.BitVec
import Mathlib.Data.List.Basic

namespace ECE385.Clocked.ShiftRegister

variable {n : Nat}

/-- The register after the bits `bs` have been shifted in, first bit first. -/
def received (w : BitVec n) (bs : List Bool) : BitVec n := bs.foldl BitVec.shiftConcat w

/-- The next `k` bits that the register shifts out, top bit first. -/
def transmitted (w : BitVec n) : Nat → List Bool
  | 0 => []
  | k + 1 => w.msb :: transmitted (w.shiftConcat false) k

theorem received_cons (w : BitVec n) (b : Bool) (bs : List Bool) :
    received w (b :: bs) = received (w.shiftConcat b) bs := rfl

theorem received_append (w : BitVec n) (bs cs : List Bool) :
    received w (bs ++ cs) = received (received w bs) cs := List.foldl_append

theorem getLsbD_received (w : BitVec n) (bs : List Bool) {i : Nat} (hi : i < n) :
    (received w bs).getLsbD i = if i < bs.length then bs.reverse.getD i false else w.getLsbD (i - bs.length) := by
  induction bs using List.reverseRecOn generalizing i with
  | nil => simp [received]
  | append_singleton bs b ih =>
      rw [received_append, received_cons, received, List.foldl_nil, BitVec.getLsbD_shiftConcat]
      cases i with
      | zero => simp [hi]
      | succ i => simp [hi, ih (Nat.lt_of_succ_lt hi)]

theorem getMsbD_shiftConcat (w : BitVec n) (b : Bool) {i : Nat} (hi : i + 1 < n) :
    (w.shiftConcat b).getMsbD i = w.getMsbD (i + 1) := by
  have hindex : n - 1 - i = n - 1 - (i + 1) + 1 := by omega
  have hlt : n - 1 - i < n := by omega
  rw [BitVec.getMsbD, BitVec.getMsbD, BitVec.getLsbD_shiftConcat, hindex]
  simp only [Nat.succ_ne_zero, if_false, Nat.add_sub_cancel]
  simp [hi, Nat.lt_of_succ_lt hi, ← hindex, hlt]

theorem transmitted_eq (w : BitVec n) {k : Nat} (hk : k ≤ n) :
    transmitted w k = (List.range k).map w.getMsbD := by
  induction k generalizing w with
  | zero => rfl
  | succ k ih =>
      rw [transmitted, ih _ (Nat.le_of_succ_le hk), List.range_succ_eq_map, List.map_cons, List.map_map]
      congr 1
      apply List.map_congr_left
      intro i hi
      rw [List.mem_range] at hi
      exact getMsbD_shiftConcat w false (by omega)

/-- A full register sends out the bits that it has received, in their order. -/
theorem transmitted_received (w : BitVec n) {bs : List Bool} (h : bs.length = n) :
    transmitted (received w bs) n = bs := by
  rw [transmitted_eq _ le_rfl]
  apply List.ext_getElem
  · simp [h]
  · intro i hi hi'
    have hlt : n - 1 - i < bs.length := by omega
    simp only [List.getElem_map, List.getElem_range, BitVec.getMsbD]
    rw [getLsbD_received _ _ (by omega), if_pos hlt, List.getD_eq_getElem?_getD, List.getElem?_eq_getElem (by simpa using hlt),
      Option.getD_some, List.getElem_reverse]
    have hindex : bs.length - 1 - (n - 1 - i) = i := by omega
    simp only [hindex]
    simp [show i < n by omega]

/-- Two registers send the same bits from the `d`-th on if they agree on all but
their `d` top bits. -/
theorem drop_transmitted_eq_iff (w v : BitVec n) (d : Nat) :
    (transmitted w n).drop d = (transmitted v n).drop d ↔
      ∀ i, i < n - d → w.getLsbD i = v.getLsbD i := by
  rw [transmitted_eq w le_rfl, transmitted_eq v le_rfl]
  constructor
  · intro h i hi
    have hget := congrArg (·[n - 1 - i - d]?) h
    have hpos : d + (n - 1 - i - d) = n - 1 - i := by omega
    have hlt : n - 1 - i < n := by omega
    have hback : n - 1 - (n - 1 - i) = i := by omega
    simpa [List.getElem?_drop, hpos, hlt, BitVec.getMsbD, hback] using hget
  · intro h
    rw [← List.map_drop, ← List.map_drop]
    apply List.map_congr_left
    intro k hk
    obtain ⟨j, hj, rfl⟩ := List.mem_iff_getElem.mp hk
    simp only [List.length_drop, List.length_range] at hj
    rw [List.getElem_drop, List.getElem_range, BitVec.getMsbD, BitVec.getMsbD, h _ (by omega)]

end ECE385.Clocked.ShiftRegister
