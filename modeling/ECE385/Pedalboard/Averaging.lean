import ECE385.Arithmetic.Averages
import ECE385.Pedalboard.Chain

namespace ECE385.Pedalboard.Averaging

open Arithmetic.Averages
open Chain (Controls State)
open Delay (clocked)
open Effects

def window (cutoff : BitVec 2) : Nat := 2 ^ (cutoff.toNat + 1)

/-- The registers that the branch for `cutoff` names. -/
def named (cutoff : BitVec 2) (t : Taps) : List (BitVec 24) :=
  ((List.finRange 15).take (window cutoff - 1)).map t.past

/-- The samples that the filter reads, the present one first. -/
def taps (cutoff : BitVec 2) (t : Taps) (din : Word) : List Int :=
  (sample din :: named cutoff t).map BitVec.toInt

theorem named_length (cutoff : BitVec 2) (t : Taps) : (named cutoff t).length + 1 = window cutoff := by
  have hwindow : ((List.finRange 15).take (window cutoff - 1)).length + 1 = window cutoff := by
    revert cutoff
    decide
  rw [named, List.length_map, hwindow]

theorem taps_length (cutoff : BitVec 2) (t : Taps) (din : Word) : (taps cutoff t din).length = window cutoff := by
  rw [taps, List.length_map, List.length_cons, named_length]

theorem average_toInt (cutoff : BitVec 2) (t : Taps) (din : Word) :
    (average cutoff (sample din) t).toInt = floorSum (window cutoff) (taps cutoff t din) := by
  have hlt : cutoff.toNat + 1 < 24 := by omega
  rw [taps, window, ← toInt_sum_sshiftRight hlt _ _ (named_length cutoff t), named, List.map_map, List.foldl_map]
  rfl

structure Taking (side : Side) (k : Controls) (s : State) : Prop where
  clocked : side = clocked (!s.lrclk)
  enable : k.sw.getLsbD 5 = true

def output (side : Side) (k : Controls) (s : State) : Int := (sample ((s.edge k).sampleProcessed side)).toInt

theorem output_eq {side : Side} {k : Controls} {s : State} (h : Taking side k s) :
    output side k s = floorSum (window k.cutoff) (taps k.cutoff (s.taps side) (s.tremoloout side)) := by
  obtain ⟨hclocked, henable⟩ := h
  have htook := (Chain.took_edge k s).sampleProcessed
  rw [← hclocked, henable, lowpassfilterOut, if_pos rfl] at htook
  rw [output, htook, sample_pack, average_toInt]

/-- The sum of the filter is exact, so that only the floors of its terms part it
from the mean of the samples that it reads. -/
theorem lowpassfilter_mean (side : Side) (k : Controls) (s : State) (h : Taking side k s) :
    (taps k.cutoff (s.taps side) (s.tremoloout side)).length = window k.cutoff ∧
      FloorMean (taps k.cutoff (s.taps side) (s.tremoloout side)) (output side k s) := by
  have hlength := taps_length k.cutoff (s.taps side) (s.tremoloout side)
  have hpos : 0 < window k.cutoff := Nat.two_pow_pos _
  have hnonempty := List.ne_nil_of_length_pos (Nat.lt_of_lt_of_eq hpos hlength.symm)
  refine ⟨hlength, ?_⟩
  rw [output_eq h, ← hlength]
  exact floorMean_floorSum hnonempty

def on (cutoff : BitVec 2) : Controls := ⟨0b100000#7, 0, 0, 0, 0, 0, cutoff⟩

def filled : State :=
  { Chain.powerUp with tremoloout := fun _ => 0x7FFFFF80#32, taps := fun _ => ⟨0, fun _ => -1⟩ }

/-- The lower bound is met: sixteen samples of -1 make -16. -/
theorem lowpassfilter_mean_filled : output .left (on 3) filled = -16 := by
  have hmean := lowpassfilter_mean .left (on 3) filled ⟨rfl, rfl⟩
  exact hmean.2.sum.trans (by decide)

end ECE385.Pedalboard.Averaging
