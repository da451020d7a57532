import ECE385.Clocked.Machine
import ECE385.Pedalboard.Averaging

namespace ECE385.Pedalboard.MovingAverage

open Arithmetic.Averages
open Averaging (window named taps)
open Clocked.Machine
open Delay (clocked)
open Effects

structure Inputs where
  enable : Bool
  cutoff : BitVec 2
  din : Side → Word

structure State where
  lrclk : Bool
  taps : Side → Taps
  dout : Side → Word

def State.edge (i : Inputs) (s : State) : State :=
  let side := clocked (!s.lrclk)
  { lrclk := !s.lrclk
    taps := Function.update s.taps side ((s.taps side).shift (sample (i.din side)))
    dout := Function.update s.dout side (lowpassfilterOut i.enable i.cutoff (s.taps side) (i.din side)) }

abbrev edges (i : Nat → Inputs) (s : State) (n : Nat) : State := run State.edge i s n

variable (i : Nat → Inputs) (s : State) (side : Side)

/-- The edge of LRCLK that ends frame `n` of a side. -/
def own (n : Nat) : Nat := 2 * n + if side = clocked (!s.lrclk) then 0 else 1

def input (n : Nat) : BitVec 24 := sample ((i (own s side n)).din side)

/-- The samples of a side, that of frame `n` under `n + 16`. The registers at the
start stand for the sixteen before the first frame. -/
def heard (n : Nat) : BitVec 24 :=
  if n < 15 then (s.taps side).past (Fin.ofNat 15 (14 - n))
  else if n = 15 then (s.taps side).store
  else input i s side (n - 16)

/-- What the registers hold before sample `n + 16` comes in: `store` the last one,
so that past 1 is already the one before it. -/
structure Recalls (h : Nat → BitVec 24) (n : Nat) (t : Taps) : Prop where
  store : t.store = h (n + 15)
  past : ∀ j : Fin 15, t.past j = h (n + 14 - j)

theorem Recalls.shift {h : Nat → BitVec 24} {n : Nat} {t : Taps} (ht : Recalls h n t) :
    Recalls h (n + 1) (t.shift (h (n + 16))) := by
  refine ⟨rfl, fun j => ?_⟩
  cases j using Fin.cases with
  | zero => exact ht.store
  | succ j =>
      have hindex : n + 1 + 14 - (j.succ : Nat) = n + 14 - (j.castSucc : Nat) := by
        rw [Fin.val_succ, Fin.val_castSucc]
        omega
      rw [hindex]
      exact ht.past j.castSucc

theorem recalls_start : Recalls (heard i s side) 0 (s.taps side) := by
  refine ⟨rfl, fun j => ?_⟩
  have hlt : 0 + 14 - (j : Nat) < 15 := by omega
  have hindex : Fin.ofNat 15 (14 - (0 + 14 - (j : Nat))) = j := by
    apply Fin.ext
    rw [Fin.val_ofNat]
    omega
  rw [heard, if_pos hlt, hindex]

theorem heard_input (n : Nat) : heard i s side (n + 16) = input i s side n := by
  rw [heard, if_neg (by omega), if_neg (by omega), Nat.add_sub_cancel]

theorem edges_lrclk (n : Nat) : (edges i s (2 * n)).lrclk = s.lrclk := by
  induction n with
  | zero => rfl
  | succ n ih =>
      have hflip : (edges i s (2 * (n + 1))).lrclk = !!(edges i s (2 * n)).lrclk := rfl
      rw [hflip, ih, Bool.not_not]

section Edge

variable {s side} (k : Inputs)

theorem edge_taps (h : side = clocked (!s.lrclk)) :
    (s.edge k).taps side = (s.taps side).shift (sample (k.din side)) := by
  subst h
  exact Function.update_self ..

theorem edge_taps_other (h : side ≠ clocked (!s.lrclk)) : (s.edge k).taps side = s.taps side :=
  Function.update_of_ne h ..

theorem edge_dout (h : side = clocked (!s.lrclk)) :
    (s.edge k).dout side = lowpassfilterOut k.enable k.cutoff (s.taps side) (k.din side) := by
  subst h
  exact Function.update_self ..

theorem clocked_not (lrclk : Bool) : side = clocked (!lrclk) ↔ side ≠ clocked lrclk := by
  cases side <;> cases lrclk <;> decide

end Edge

/-- Just before its own edge a side still has the registers of the start of the frame. -/
theorem own_edge (n : Nat) : side = clocked (!(edges i s (own s side n)).lrclk) ∧
    (edges i s (own s side n)).taps side = (edges i s (2 * n)).taps side := by
  have hlrclk := edges_lrclk i s n
  rw [own]
  split
  · rename_i h
    rw [Nat.add_zero, hlrclk]
    exact ⟨h, rfl⟩
  · rename_i h
    have hother : side ≠ clocked (!(edges i s (2 * n)).lrclk) := by rwa [hlrclk]
    rw [edges, run_succ]
    refine ⟨?_, edge_taps_other _ hother⟩
    rwa [clocked_not]

theorem own_edge_taps (n : Nat) : (edges i s (own s side n + 1)).taps side =
    ((edges i s (2 * n)).taps side).shift (input i s side n) := by
  obtain ⟨hclocked, htaps⟩ := own_edge i s side n
  rw [edges, run_succ, edge_taps _ hclocked, htaps]
  rfl

theorem frame_taps (n : Nat) : (edges i s (2 * (n + 1))).taps side =
    ((edges i s (2 * n)).taps side).shift (input i s side n) := by
  have hafter := own_edge_taps i s side n
  rw [own] at hafter
  split at hafter
  · rename_i h
    rw [Nat.add_zero] at hafter
    have hother : side ≠ clocked (!(edges i s (2 * n + 1)).lrclk) := by
      have hlrclk : (edges i s (2 * n + 1)).lrclk = !(edges i s (2 * n)).lrclk := rfl
      rwa [hlrclk, edges_lrclk, Bool.not_not, ← clocked_not]
    rw [← hafter, Nat.mul_succ, edges, run_succ]
    exact edge_taps_other _ hother
  · exact hafter

theorem recalls_frames (n : Nat) : Recalls (heard i s side) n ((edges i s (2 * n)).taps side) := by
  induction n with
  | zero => exact recalls_start i s side
  | succ n ih =>
      rw [frame_taps, ← heard_input]
      exact ih.shift

theorem taps_own (n : Nat) (cutoff : BitVec 2) :
    taps cutoff ((edges i s (own s side n)).taps side) ((i (own s side n)).din side) =
      (heard i s side (n + 16)).toInt ::
        (List.range (window cutoff - 1)).map fun j => (heard i s side (n + 16 - (j + 2))).toInt := by
  have hpast : ((edges i s (own s side n)).taps side).past = (fun j : Nat => heard i s side (n + 14 - j)) ∘ Fin.val := by
    rw [(own_edge i s side n).2]
    exact funext (recalls_frames i s side n).past
  have hwindow : min (window cutoff - 1) 15 = window cutoff - 1 := by
    revert cutoff
    decide
  rw [taps, List.map_cons, named, hpast, ← List.map_map, List.map_take, List.map_coe_finRange_eq_range, List.take_range,
    hwindow, List.map_map, ← input, ← heard_input]
  have hback (j : Nat) : n + 16 - (j + 2) = n + 14 - j := Nat.add_sub_add_right (n + 14) 2 j
  simp only [hback]
  rfl

/-- The mean of sample `n` and the `k - 1` samples before it. -/
def movingAverage (k : Nat) (x : Nat → BitVec 24) (n : Nat) : Int :=
  floorSum k ((List.range k).map fun j => (x (n - j)).toInt)

theorem dout_own (n : Nat) (h : (i (own s side n)).enable = true) :
    (sample ((edges i s (own s side n + 1)).dout side)).toInt =
      floorSum (window (i (own s side n)).cutoff)
        (taps (i (own s side n)).cutoff ((edges i s (own s side n)).taps side) ((i (own s side n)).din side)) := by
  obtain ⟨hclocked, _⟩ := own_edge i s side n
  rw [edges, run_succ, edge_dout _ hclocked, h, lowpassfilterOut, if_pos rfl, sample_pack, Averaging.average_toInt]

theorem skipped_iff (x : Nat → BitVec 24) (n : Nat) (cutoff : BitVec 2) :
    floorSum (window cutoff) ((x n).toInt :: (List.range (window cutoff - 1)).map fun j => (x (n - (j + 2))).toInt) =
        movingAverage (window cutoff) x n ↔
      (x (n - 1)).toInt / window cutoff = (x (n - window cutoff)).toInt / window cutoff := by
  obtain ⟨m, hm⟩ : ∃ m, window cutoff = m + 2 := Nat.exists_eq_add_of_le' (by revert cutoff; decide)
  rw [movingAverage, hm]
  exact floorSum_skip_iff (m + 2) m fun j => (x (n - j)).toInt

/-- The filter leaves out the sample before the present one and takes one more at
the far end of its window, so it is the moving average when these two have the
same share. -/
theorem lowpassfilter_averages_iff (n : Nat) (h : (i (own s side n)).enable = true) :
    (sample ((edges i s (own s side n + 1)).dout side)).toInt =
        movingAverage (window (i (own s side n)).cutoff) (heard i s side) (n + 16) ↔
      (heard i s side (n + 15)).toInt / window (i (own s side n)).cutoff =
        (heard i s side (n + 16 - window (i (own s side n)).cutoff)).toInt / window (i (own s side n)).cutoff := by
  rw [dout_own i s side n h, taps_own]
  exact skipped_iff (heard i s side) (n + 16) _

section Chain

def ofChain (c : Chain.State) : State := ⟨c.lrclk, c.taps, c.sampleProcessed⟩

variable (f : Nat → Chain.Half) (c : Chain.State)

def chained (n : Nat) : Inputs :=
  ⟨(f n).last.sw.getLsbD 5, (f n).last.cutoff, (run Chain.Half.apply f c n).tremoloout⟩

theorem ofChain_half (h : Chain.Half) :
    ofChain (h.apply c) = (ofChain c).edge ⟨h.last.sw.getLsbD 5, h.last.cutoff, c.tremoloout⟩ := by
  have hheld := Chain.holding_ticks h.ticks c
  have hbefore : ofChain (Chain.afterTicks h.ticks c) = ofChain c := by
    rw [ofChain, hheld.lrclk, hheld.taps, hheld.sampleProcessed, ofChain]
  rw [← hbefore, ← hheld.tremoloout]
  rfl

theorem ofChain_run (n : Nat) : ofChain (run Chain.Half.apply f c n) = edges (chained f c) (ofChain c) n := by
  induction n with
  | zero => rfl
  | succ n ih =>
      rw [run_succ, ofChain_half, ih]
      rfl

theorem sampleProcessed_averages_iff (n : Nat) (h : (f (own (ofChain c) side n)).last.sw.getLsbD 5 = true) :
    (sample ((run Chain.Half.apply f c (own (ofChain c) side n + 1)).sampleProcessed side)).toInt =
        movingAverage (window (f (own (ofChain c) side n)).last.cutoff) (heard (chained f c) (ofChain c) side) (n + 16) ↔
      (heard (chained f c) (ofChain c) side (n + 15)).toInt / window (f (own (ofChain c) side n)).last.cutoff =
        (heard (chained f c) (ofChain c) side (n + 16 - window (f (own (ofChain c) side n)).last.cutoff)).toInt /
          window (f (own (ofChain c) side n)).last.cutoff := by
  have hprocessed := congrArg (fun t => (sample (t.dout side)).toInt) (ofChain_run f c (own (ofChain c) side n + 1))
  rw [dout_own (chained f c) (ofChain c) side n h, taps_own] at hprocessed
  refine Iff.trans ?_ (skipped_iff (heard (chained f c) (ofChain c) side) (n + 16) _)
  exact Eq.congr_left hprocessed

end Chain

def powerUp : State := ⟨false, fun _ => ⟨0, fun _ => 0⟩, fun _ => 0⟩

/-- The words of the left side are `din` in frame 15 and 0 in all the others. -/
def click (din : Word) (e : Nat) : Inputs := ⟨true, 0, fun _ => if e = 30 then din else 0⟩

def rising (e : Nat) : Inputs := ⟨true, 3, fun _ => BitVec.ofNat 32 ((764 + e / 2) * 128)⟩

theorem lowpassfilter_averages_iff_rising :
    (sample ((edges rising powerUp 41).dout .left)).toInt = movingAverage 16 (heard rising powerUp .left) 36 := by
  exact (lowpassfilter_averages_iff rising powerUp .left 20 rfl).mpr (by decide)

/-- A sample of 2 in frame 15 is missed in frame 16. -/
theorem lowpassfilter_skips_sample :
    ¬ ∀ (i : Nat → Inputs) (s : State) (side : Side) (n : Nat), 16 ≤ n → (i (own s side n)).enable = true →
      (sample ((edges i s (own s side n + 1)).dout side)).toInt =
        movingAverage (window (i (own s side n)).cutoff) (heard i s side) (n + 16) := by
  intro h
  have hframe := h (click 0x00000100#32) powerUp .left 16 le_rfl rfl
  rw [dout_own _ _ _ _ rfl, taps_own] at hframe
  exact absurd hframe (by decide)

end ECE385.Pedalboard.MovingAverage
