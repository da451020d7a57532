import ECE385.Pedalboard.DelayLine

namespace ECE385.Pedalboard.Processing

open Bypass (frames frames_lrclk)
open Chain
open Clocked.RingBuffer (Holds holds_first)
open Clocked.ShiftRegister
open Delay (quarter)
open DelayLine (half_reads half_writes)
open Echo (clocked_writeLevel side_ne_clocked wren_not_writeLevel wren_writeLevel writeLevel)
open Effects (Word Side)
open Pedals
open Pipeline

section Half

variable (h : Half) {s : State} {side : Side}

theorem half_delay : (h.apply s).delay =
    (afterTicks h.ticks s).delay.edge ((afterTicks h.ticks s).delayInputs h.last) (!s.lrclk) := by
  rw [← (holding_ticks h.ticks s).lrclk]
  rfl

/-- The edge after a half period in which a line is written is one of the other side. -/
theorem half_line (hlevel : s.lrclk = writeLevel side) :
    (h.apply s).delay.line side = (afterTicks h.ticks s).delay.line side := by
  rw [half_delay, hlevel]
  exact Delay.edge_line_other _ _ _ (side_ne_clocked side)

theorem half_own (hlevel : s.lrclk = !writeLevel side) :
    (h.apply s).delay.line side = ((afterTicks h.ticks s).delay.line side).next ∧
    (h.apply s).delay.dout side =
      Delay.out (h.last.sw.getLsbD 3) (s.overdriveout side) ((afterTicks h.ticks s).delay.line side).ram.q := by
  rw [half_delay, hlevel, Bool.not_not]
  have hline := Delay.edge_line ((afterTicks h.ticks s).delayInputs h.last) (writeLevel side) (afterTicks h.ticks s).delay
  have hdout := Delay.edge_dout ((afterTicks h.ticks s).delayInputs h.last) (writeLevel side) (afterTicks h.ticks s).delay
  rw [clocked_writeLevel] at hline hdout
  refine ⟨hline, hdout.trans ?_⟩
  rw [State.delayInputs, (holding_ticks h.ticks s).overdriveout]

/-- At its first edge the left delay has read nothing but the empty memory. -/
theorem first_edge (hrunning : 3 ≤ (clks h.ticks).length) :
    ((h.apply powerUp).delay.line .left).ram.mem = (fun _ => 0) ∧ (h.apply powerUp).delay.dout .left = 0 := by
  have hreads : Delay.wren powerUp.lrclk .left = false := rfl
  have hown : powerUp.lrclk = !writeLevel .left := rfl
  obtain ⟨-, hmem, hq⟩ := half_reads h powerUp hrunning hreads
  obtain ⟨hline, hdout⟩ := half_own h hown
  refine ⟨(congrArg (·.ram.mem) hline).trans hmem, ?_⟩
  rw [hdout, hq]
  exact delayOut_zero _

end Half

section Delay

variable (f : Nat → Frame) (side : Side)

/-- CLK runs in every half period. -/
def Running : Prop := ∀ n side, 3 ≤ (clks (f n side).ticks).length

/-- Where frame `n` of the delay begins: a side is written from its own edge on. -/
def begin (n : Nat) : Side → State
  | .left => (f n .left).apply (frames f powerUp n)
  | .right => frames f powerUp n

def first (n : Nat) : Side → Half
  | .left => f n .right
  | .right => f n .left

def second (n : Nat) : Side → Half
  | .left => f (n + 1) .left
  | .right => f n .right

def lag : Side → Nat
  | .left => 3
  | .right => 4

theorem begin_next (n : Nat) :
    begin f (n + 1) side = (second f n side).apply ((first f n side).apply (begin f n side)) := by
  cases side <;> rfl

theorem begin_level (n : Nat) : (begin f n side).lrclk = writeLevel side := by
  have hlow := frames_lrclk (f := f) (s := powerUp) rfl n
  cases side with
  | left => exact left_lrclk (f n) hlow
  | right => exact hlow

theorem begin_overdriveout (n : Nat) : (begin f n side).overdriveout side = driven f (n - lag side) side := by
  cases side with
  | left =>
      have hnext := (front_frames f (n + 1)).overdriveout
      rw [succ_sub n (show (4 : Int) = 3 + 1 from rfl)] at hnext
      refine Eq.trans ?_ (congrFun hnext .left)
      exact ((kept_right (f n) (frames_lrclk rfl n)).overdriveout).symm
  | right => exact congrFun (front_frames f n).overdriveout .right

theorem second_last (n : Nat) : (second f n side).last = knobs f 4 (n - lag side) side := by
  cases side with
  | left =>
      exact (knobs_eq f (n := n + 1) (by rw [lag]; omega) .left).symm
  | right =>
      exact (knobs_eq f (n := n) (by rw [lag]; omega) .right).symm

theorem clocks_lag (n : Nat) : clocks f (n - lag side) side =
    ⟨clock (first f n side) 0, clock (first f n side) 2, clock (second f n side) 1⟩ := by
  cases side with
  | left =>
      have hfirst : ((n : Int) - lag .left + 3).toNat = n := by rw [lag]; omega
      have hsecond : ((n : Int) - lag .left + 4).toNat = n + 1 := by rw [lag]; omega
      rw [clocks, hfirst, hsecond]
      rfl
  | right =>
      have hboth : ((n : Int) - lag .right + 4).toNat = n := by rw [lag]; omega
      rw [clocks, hboth]
      rfl

theorem first_kept (n : Nat) : Kept side (begin f n side) ((first f n side).apply (begin f n side)) :=
  kept_half _ _ (by rw [begin_level]; exact side_ne_clocked side)

theorem lag_bounds : 3 ≤ lag side ∧ lag side ≤ 4 := by cases side <;> decide

theorem distance_lt (delaytime : BitVec 3) : distance delaytime < 2 ^ 15 := by
  revert delaytime
  decide

theorem offset_distance (delaytime : BitVec 3) : Delay.offset delaytime = BitVec.ofNat 15 (distance delaytime) := by
  revert delaytime
  decide

/-- What the line has stored in frame `n`; frames count from 1. -/
def stored (n : Nat) : BitVec 16 := echo (clocks f) (driven f) side ((n : Int) - 1 - lag side)

theorem stored_zero : stored f side 0 = 0 := by
  have hlag := (lag_bounds side).1
  exact echo_before (by omega)

theorem stored_back (n d : Nat) :
    stored f side (n + 1 - d) = echo (clocks f) (driven f) side ((n : Int) - lag side - d) := by
  have hlag := (lag_bounds side).1
  rw [stored]
  by_cases hstart : d ≤ n + 1
  · congr 1
    omega
  · rw [echo_before (by omega), echo_before (by omega)]

theorem stored_succ (n : Nat) : stored f side (n + 1) = Delay.sample (driven f (n - lag side) side) +
    if (clocks f (n - lag side) side).store.sw.getLsbD 6 then
      quarter (stored f side (n + 1 - distance (clocks f (n - lag side) side).feed.delaytime)) else 0 := by
  have hfirst := stored_back f side n 0
  rw [Nat.sub_zero, Nat.cast_zero, Int.sub_zero] at hfirst
  rw [hfirst, stored_back]
  by_cases hbefore : (n : Int) - lag side < -1
  · -- the delay has not heard any word yet
    rw [echo_before hbefore, echo_before (by omega), silent_driven f _ hbefore side]
    have hquarter : quarter 0 = 0 := rfl
    rw [hquarter, ite_self]
    rfl
  · exact echo_from hbefore

/-- The delay reads back what it stored `distance` frames before. -/
theorem read_back {n : Nat} (h : Holds ((begin f n side).delay.line side).ram.mem
    ((begin f n side).delay.line side).writeadd (stored f side) (n + 1)) (delaytime : BitVec 3) :
    ((begin f n side).delay.line side).ram.mem (((begin f n side).delay.line side).readadd delaytime) =
      stored f side (n + 1 - distance delaytime) := by
  rw [Delay.Line.readadd, offset_distance]
  exact h _ (distance_pos delaytime) (distance_lt delaytime)

variable {f} (hf : Running f)

include hf

theorem running_first (n : Nat) : 3 ≤ (clks (first f n side).ticks).length := by cases side <;> exact hf ..

theorem running_second (n : Nat) : 3 ≤ (clks (second f n side).ticks).length := by cases side <;> exact hf ..

theorem begin_step (n : Nat) :
    ((begin f (n + 1) side).delay.line side).writeadd = ((begin f n side).delay.line side).writeadd + 1 ∧
    ((begin f (n + 1) side).delay.line side).ram.mem =
      Function.update ((begin f n side).delay.line side).ram.mem ((begin f n side).delay.line side).writeadd
        (Delay.sample (driven f (n - lag side) side) +
          if (clocks f (n - lag side) side).store.sw.getLsbD 6 then
            quarter (((begin f n side).delay.line side).ram.mem
              (((begin f n side).delay.line side).readadd (clocks f (n - lag side) side).feed.delaytime)) else 0) ∧
    (begin f (n + 1) side).delay.dout side =
      Delay.out ((knobs f 4 (n - lag side) side).sw.getLsbD 3) (driven f (n - lag side) side)
        (((begin f n side).delay.line side).ram.mem
          (((begin f n side).delay.line side).readadd (clocks f (n - lag side) side).read.delaytime)) := by
  have hlevel := begin_level f side n
  have hlevel' : ((first f n side).apply (begin f n side)).lrclk = !writeLevel side := by rw [half_lrclk, hlevel]
  have hdriven := ((first_kept f side n).overdriveout).trans (begin_overdriveout f side n)
  have hwrites : Delay.wren (begin f n side).lrclk side = true := by rw [hlevel, wren_writeLevel]
  have hreads : Delay.wren ((first f n side).apply (begin f n side)).lrclk side = false := by rw [hlevel', wren_not_writeLevel]
  obtain ⟨hadd, hmem⟩ := half_writes (first f n side) (begin f n side) (running_first side hf n) hwrites
  obtain ⟨hadd', hmem', hq⟩ := half_reads (second f n side) _ (running_second side hf n) hreads
  obtain ⟨hline, hdout⟩ := half_own (second f n side) hlevel'
  rw [half_line (first f n side) hlevel] at hadd' hmem' hq
  rw [clocks_lag, ← second_last, begin_next, hline, hdout, hdriven, hq, ← begin_overdriveout]
  refine ⟨?_, hmem'.trans hmem, ?_⟩
  · exact congrArg (· + 1) (hadd'.trans hadd)
  · have hread (delaytime : BitVec 3) :
        ((afterTicks (first f n side).ticks (begin f n side)).delay.line side).readadd delaytime =
          ((begin f n side).delay.line side).readadd delaytime := by rw [Delay.Line.readadd, hadd, Delay.Line.readadd]
    have hne := Delay.readadd_ne (clock (second f n side) 1).delaytime ((begin f n side).delay.line side)
    rw [hmem, hread, Function.update_of_ne hne]

theorem holds_start : Holds ((begin f 0 side).delay.line side).ram.mem
    ((begin f 0 side).delay.line side).writeadd (stored f side) 1 := by
  have hfirst (p : BitVec 15) := holds_first p (stored f side)
  rw [stored_zero] at hfirst
  cases side with
  | left =>
      have hempty : ((begin f 0 .left).delay.line .left).ram.mem = fun _ => 0 := (first_edge (f 0 .left) (hf 0 .left)).1
      rw [hempty]
      exact hfirst _
  | right => exact hfirst _

theorem holds_begin (n : Nat) : Holds ((begin f n side).delay.line side).ram.mem
    ((begin f n side).delay.line side).writeadd (stored f side) (n + 1) := by
  induction n with
  | zero => exact holds_start side hf
  | succ n ih =>
      obtain ⟨hadd, hmem, -⟩ := begin_step side hf n
      rw [hadd, hmem, read_back f side ih, ← stored_succ]
      exact ih.push

theorem begin_dout (n : Nat) : (begin f (n + 1) side).delay.dout side = echoed f (n - lag side) side := by
  have hdout := (begin_step side hf n).2.2
  rw [read_back f side (holds_begin side hf n), stored_back] at hdout
  exact hdout

theorem delay_dout (n : Nat) : (frames f powerUp n).delay.dout = echoed f (n - 5) := by
  have hsilent := (silent_driven f).delay (k := knobs f 4) (c := clocks f)
  funext side
  cases side with
  | left =>
      match n with
      | 0 => exact (hsilent _ (by decide) .left).symm
      | 1 =>
          have hleft := (kept_right (f 0) (s := powerUp) rfl).delayout
          exact (hleft.trans (first_edge (f 0 .left) (hf 0 .left)).2).trans (hsilent _ (by decide) .left).symm
      | n + 2 =>
          have hlow : (frames f powerUp (n + 1)).lrclk = false := frames_lrclk rfl (n + 1)
          have hdout := begin_dout .left hf n
          rw [show ((n + 2 : Nat) : Int) - 5 = n - (lag .left : Nat) by rw [lag]; omega, ← hdout]
          exact (kept_right (f (n + 1)) hlow).delayout
  | right =>
      cases n with
      | zero => exact (hsilent _ (by decide) .right).symm
      | succ n =>
          rw [show ((n + 1 : Nat) : Int) - 5 = n - (lag .right : Nat) by rw [lag]; omega]
          exact begin_dout .right hf n

end Delay

section Back

variable (f : Nat → Frame)

structure Back (n : Nat) (s : State) : Prop where
  squarewave : s.squarewave = BitVec.ofInt 15 n
  tremoloout : s.tremoloout = pulsing f (n - 6)
  taps : s.taps = recent (pulsing f) (n - 6)
  sampleProcessed : s.sampleProcessed = processed f (n - 7)

theorem back_powerUp : Back f 0 powerUp :=
  ⟨rfl, funext fun side => (silent_pulsing f _ (by decide) side).symm,
    funext fun side => ((silent_pulsing f).recent (by decide) side).symm,
    funext fun side => ((silent_pulsing f).lowpassfilter _ (by decide) side).symm⟩

theorem recent_next (x : Signal) (n : Int) (side : Side) :
    recent x (n + 1) side = (recent x n side).shift (Effects.sample (x n side)) := by
  have hpast : (recent x (n + 1) side).past =
      ((recent x n side).shift (Effects.sample (x n side))).past := by
    funext i
    cases i using Fin.cases with
    | zero =>
        show Effects.sample (x (n + 1 - 2 - (0 : Nat)) side) = Effects.sample (x (n - 1) side)
        congr 2
        omega
    | succ i =>
        show Effects.sample (x (n + 1 - 2 - (i.succ : Nat)) side) =
          Effects.sample (x (n - 2 - (i.castSucc : Nat)) side)
        rw [Fin.val_succ, Fin.val_castSucc]
        congr 2
        omega
  have hstore : (recent x (n + 1) side).store = Effects.sample (x n side) := by
    rw [recent, Int.add_sub_cancel]
  exact congr (congrArg _ hstore) hpast

variable {f} (hf : Running f)

include hf

theorem back_next {n : Nat} (h : Back f n (frames f powerUp n)) : Back f (n + 1) (frames f powerUp (n + 1)) := by
  have hlow : (frames f powerUp n).lrclk = false := frames_lrclk rfl n
  have hdelay := delay_dout hf n
  have hwave : BitVec.ofInt 15 ((n + 1 : Nat) : Int) = BitVec.ofInt 15 n + 1 := by
    rw [BitVec.ofInt_natCast, BitVec.ofInt_natCast, BitVec.ofNat_add]
    rfl
  rw [frames, Clocked.Machine.run_succ]
  refine ⟨?_, ?_, ?_, ?_⟩
  · rw [frame_squarewave _ hlow, h.squarewave, hwave]
  · funext side
    rw [frame_tremoloout _ hlow, hdelay, h.squarewave, succ_sub n (show (6 : Int) = 5 + 1 from rfl), pulsing,
      tremolo, knobs_eq f (n := n) (by omega)]
    cases side with
    | left => rw [phase, show (n : Int) - 5 + (5 : Nat) = n by omega]
    | right => rw [phase, show (n : Int) - 5 + (5 : Nat) + 1 = (n + 1 : Nat) by omega, hwave]
  · funext side
    rw [frame_taps _ hlow, h.taps, h.tremoloout, ← recent_next]
    congr 1
    omega
  · funext side
    rw [frame_sampleProcessed _ hlow, h.taps, h.tremoloout, succ_sub n (show (7 : Int) = 6 + 1 from rfl), processed,
      lowpassfilter, knobs_eq f (n := n) (by omega)]

theorem back_frames (n : Nat) : Back f n (frames f powerUp n) := by
  induction n with
  | zero => exact back_powerUp f
  | succ n ih => exact back_next hf ih

/-- What the board sends in frame `n + 7` is what its six pedals, one after the
other, make of what it receives: the word of frame `n` and, in the bitcrusher, the
delay and the filter, the words next to it and before it. The switches and knobs
count as they are at the edges at which a pedal takes them. -/
theorem board_processes (n : Nat) (side : Side) :
    (f (n + 7)).sent (frames f powerUp (n + 7)) side = transmitted (processed f n side) 32 ∧
    transmitted (heard f n side) 32 = false :: (bits (f n side).ticks).tail := by
  have hlow (m : Nat) : (frames f powerUp m).lrclk = false := frames_lrclk rfl m
  have hprocessed := congrFun (back_frames hf (n + 7)).sampleProcessed side
  rw [show ((n + 7 : Nat) : Int) - 7 = n by omega] at hprocessed
  constructor
  · rw [← hprocessed]
    cases side with
    | left =>
        rw [sent_left _ (hlow (n + 7))]
        exact congrArg (transmitted · 32) (frame_loaded (f (n + 6)) (hlow (n + 6)))
    | right => exact sent_right _ (hlow (n + 7))
  · rw [heard_frame, word, transmitted_junkless, transmitted_received _ (f n side).sclks]

end Back

/-- Only the gain stage is on, and it doubles. The knob of the delay turns, and its
feedback goes on and off. -/
def turning (n : Nat) : Controls := ⟨if n % 2 = 0 then 0b0000001 else 0b1000001, 1, 0, 0, BitVec.ofNat 3 n, 0, 0⟩

def loud (n : Nat) : Frame := fun _ =>
  { ticks := List.replicate 32 (turning n, .sclk true) ++ List.replicate 3 (turning n, .clk fun _ => 0)
    last := turning n
    sclks := by simp [bits, Tick.din] }

theorem running_loud : Running loud := fun _ _ => le_refl 3

theorem board_processes_loud : (loud 7).sent (frames loud powerUp 7) .left =
    List.replicate 24 true ++ false :: List.replicate 7 true :=
  (board_processes running_loud 0 .left).1.trans (by decide +kernel)

end ECE385.Pedalboard.Processing
