import Mathlib.Data.BitVec

namespace ECE385.Pedalboard.Tuning

/-- The six tuning parameters by selector value: gain, bit depth, clip, delay
time, tremolo and cutoff. Selectors 6 and 7 have none. -/
abbrev Levels := BitVec 3 → Nat

def top (sel : BitVec 3) : Nat :=
  match sel.toNat with
  | 0 => 3
  | 1 => 7
  | 2 => 7
  | 3 => 7
  | 4 => 3
  | 5 => 3
  | _ => 0

def inc (sel : BitVec 3) (l : Levels) : Levels := fun p =>
  if p = sel ∧ l p < top p then l p + 1 else l p

def dec (sel : BitVec 3) (l : Levels) : Levels := fun p => if p = sel then l p - 1 else l p

def clear (sel : BitVec 3) (l : Levels) : Levels := fun p => if p = sel then 0 else l p

theorem dec_inc_zero (sel : BitVec 3) : dec sel (inc sel fun _ => 0) = fun _ => 0 := by
  funext p
  by_cases hp : p = sel
  · simp only [dec, inc, hp, true_and, if_true]
    split <;> rfl
  · simp [dec, inc, hp]

theorem dec_zero (sel : BitVec 3) : dec sel (fun _ => 0) = fun _ => 0 := by
  funext p
  exact ite_self 0

theorem selector_cases (p : BitVec 3) :
    p = 0 ∨ p = 1 ∨ p = 2 ∨ p = 3 ∨ p = 4 ∨ p = 5 ∨ p = 6 ∨ p = 7 := by
  revert p
  decide

end ECE385.Pedalboard.Tuning
