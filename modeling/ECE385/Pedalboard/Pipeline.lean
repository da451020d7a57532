import ECE385.Pedalboard.Bypass
import ECE385.Pedalboard.Echo
import ECE385.Pedalboard.Pedals

namespace ECE385.Pedalboard.Pipeline

open Bypass (frames frames_lrclk)
open Chain
open Clocked.Machine (run_succ)
open Clocked.ShiftRegister
open Echo (writeLevel)
open Effects (Word Side Taps)
open Pedals

theorem junkless_received (w v : Word) {bs : List Bool} (h : bs.length = 32) :
    junkless (received w bs) = junkless (received v bs) := by
  apply BitVec.eq_of_getLsbD_eq
  intro i hi
  rw [getLsbD_junkless, getLsbD_junkless, getLsbD_received _ _ hi, getLsbD_received _ _ hi, h, if_pos hi, if_pos hi]

/-- The word that a half period brings in. -/
def word (h : Half) : Word := junkless (received 0 (bits h.ticks))

section Frame

variable (f : Frame) {s : State} (hlow : s.lrclk = false)

include hlow

theorem frame_sampleIn (side : Side) : (f.apply s).sampleIn side = word (f side) := by
  cases side with
  | left =>
      rw [(kept_right f hlow).sampleIn, (took_left f hlow).sampleIn, dataIn_ticks]
      exact junkless_received _ _ (f .left).sclks
  | right =>
      rw [(took_right f hlow).sampleIn, dataIn_ticks]
      exact junkless_received _ _ (f .right).sclks

theorem frame_gainstageout (side : Side) : (f.apply s).gainstageout side =
    Effects.gainstagerOut ((f side).last.sw.getLsbD 0) (f side).last.gain (s.sampleIn side) := by
  cases side with
  | left =>
      rw [(kept_right f hlow).gainstageout, (took_left f hlow).gainstageout, (holding_ticks _ s).sampleIn]
  | right =>
      rw [(took_right f hlow).gainstageout, (holding_ticks _ _).sampleIn, (kept_left f hlow).sampleIn]

theorem frame_bitcrusherout_left : (f.apply s).bitcrusherout .left =
    Effects.bitcrusherOut .left ((f .left).last.sw.getLsbD 1) (f .left).last.bitdepth s.gainstageout := by
  rw [(kept_right f hlow).bitcrusherout, (took_left f hlow).bitcrusherout, (holding_ticks _ s).gainstageout]

theorem frame_bitcrusherout_right : (f.apply s).bitcrusherout .right =
    Effects.bitcrusherOut .right ((f .right).last.sw.getLsbD 1) (f .right).last.bitdepth
      ((f .left).apply s).gainstageout := by
  rw [(took_right f hlow).bitcrusherout, (holding_ticks _ _).gainstageout]

theorem frame_overdriveout (side : Side) : (f.apply s).overdriveout side =
    Effects.overdriveOut ((f side).last.sw.getLsbD 2) (f side).last.clip (s.bitcrusherout side) := by
  cases side with
  | left =>
      rw [(kept_right f hlow).overdriveout, (took_left f hlow).overdriveout, (holding_ticks _ s).bitcrusherout]
  | right =>
      rw [(took_right f hlow).overdriveout, (holding_ticks _ _).bitcrusherout, (kept_left f hlow).bitcrusherout]

theorem left_squarewave : ((f .left).apply s).squarewave = s.squarewave + 1 := by
  have hhold := holding_ticks (f .left).ticks s
  show (if (afterTicks (f .left).ticks s).lrclk then _ else (afterTicks (f .left).ticks s).squarewave + 1) = _
  rw [hhold.lrclk, hlow, hhold.squarewave]
  rfl

theorem frame_squarewave : (f.apply s).squarewave = s.squarewave + 1 := by
  have hhold := holding_ticks (f .right).ticks ((f .left).apply s)
  show (if (afterTicks (f .right).ticks ((f .left).apply s)).lrclk then
    (afterTicks (f .right).ticks ((f .left).apply s)).squarewave else _) = _
  rw [hhold.lrclk, left_lrclk f hlow, hhold.squarewave, left_squarewave f hlow]
  rfl

theorem frame_tremoloout (side : Side) : (f.apply s).tremoloout side =
    Effects.tremoloOut ((f side).last.sw.getLsbD 4) (f side).last.tremfreq
      (match side with | .left => s.squarewave | .right => s.squarewave + 1) (s.delay.dout side) := by
  cases side with
  | left =>
      have hhold := holding_ticks (f .left).ticks s
      rw [(kept_right f hlow).tremoloout, (took_left f hlow).tremoloout, hhold.squarewave, hhold.delayout]
  | right =>
      have hhold := holding_ticks (f .right).ticks ((f .left).apply s)
      rw [(took_right f hlow).tremoloout, hhold.squarewave, hhold.delayout, left_squarewave f hlow,
        (kept_left f hlow).delayout]

theorem frame_taps (side : Side) :
    (f.apply s).taps side = (s.taps side).shift (Effects.sample (s.tremoloout side)) := by
  cases side with
  | left =>
      have hhold := holding_ticks (f .left).ticks s
      rw [(kept_right f hlow).taps, (took_left f hlow).taps, hhold.taps, hhold.tremoloout]
  | right =>
      have hhold := holding_ticks (f .right).ticks ((f .left).apply s)
      rw [(took_right f hlow).taps, hhold.taps, hhold.tremoloout, (kept_left f hlow).taps,
        (kept_left f hlow).tremoloout]

theorem frame_sampleProcessed (side : Side) : (f.apply s).sampleProcessed side =
    Effects.lowpassfilterOut ((f side).last.sw.getLsbD 5) (f side).last.cutoff (s.taps side)
      (s.tremoloout side) := by
  cases side with
  | left =>
      have hhold := holding_ticks (f .left).ticks s
      rw [(kept_right f hlow).sampleProcessed, (took_left f hlow).sampleProcessed, hhold.taps, hhold.tremoloout]
  | right =>
      have hhold := holding_ticks (f .right).ticks ((f .left).apply s)
      rw [(took_right f hlow).sampleProcessed, hhold.taps, hhold.tremoloout, (kept_left f hlow).taps,
        (kept_left f hlow).tremoloout]

end Frame

section Signals

variable (f : Nat → Frame)

def heard : Signal := fun n side => if n < 0 then 0 else word (f n.toNat side)

/-- A pedal at place `d` of the chain takes word `n` at the edge that ends frame
`n + d` of its side. -/
def knobs (d : Nat) : Knobs := fun n side => (f (n + d).toNat side).last

def clk (t : Controls × Tick) : Option (Controls × (Side → BitVec 16)) :=
  match t.2 with
  | .sclk _ => none
  | .clk dontcare => some (t.1, dontcare)

/-- The edges of CLK among the ticks, the last one first. -/
def clks (ts : Ticks) : List (Controls × (Side → BitVec 16)) := (ts.filterMap clk).reverse

/-- The controls at the last edge of CLK but `j`. -/
def clock (h : Half) (j : Nat) : Controls := ((clks h.ticks)[j]?.map Prod.fst).getD h.last

/-- A side of the delay is written in the half period after the edge that brings
the word. In the next one it is only read, up to its own edge. -/
def clocks (n : Int) : Side → Clocks
  | .left => ⟨clock (f (n + 3).toNat .right) 0, clock (f (n + 3).toNat .right) 2, clock (f (n + 4).toNat .left) 1⟩
  | .right => ⟨clock (f (n + 4).toNat .left) 0, clock (f (n + 4).toNat .left) 2, clock (f (n + 4).toNat .right) 1⟩

/-- The counter of the tremolo at these edges. -/
def phase (d : Nat) (n : Int) : Side → BitVec 15
  | .left => BitVec.ofInt 15 (n + d)
  | .right => BitVec.ofInt 15 (n + d + 1)

def amplified : Signal := gainstager (knobs f 1) (heard f)
def crushed : Signal := bitcrusher (knobs f 2) (amplified f)
def driven : Signal := overdrive (knobs f 3) (crushed f)
def echoed : Signal := delay (knobs f 4) (clocks f) (driven f)
def pulsing : Signal := tremolo (knobs f 5) (echoed f) (phase 5)
def processed : Signal := lowpassfilter (knobs f 6) (pulsing f)

theorem silent_amplified : Silent 0 (amplified f) := Silent.gainstager fun _ hn _ => if_pos hn

theorem silent_crushed : Silent (-1) (crushed f) := Silent.bitcrusher (silent_amplified f)

theorem silent_driven : Silent (-1) (driven f) := (silent_crushed f).overdrive

theorem silent_pulsing : Silent (-1) (pulsing f) := (silent_driven f).delay.tremolo

theorem knobs_eq {d n : Nat} {m : Int} (h : m + d = n) (side : Side) : knobs f d m side = (f n side).last := by
  rw [knobs, h, Int.toNat_natCast]

theorem heard_frame (n : Nat) (side : Side) : heard f n side = word (f n side) := by
  rw [heard, if_neg (by omega), Int.toNat_natCast]

end Signals

section Front

variable (f : Nat → Frame)

structure Front (n : Nat) (s : State) : Prop where
  lrclk : s.lrclk = false
  sampleIn : s.sampleIn = heard f (n - 1)
  gainstageout : s.gainstageout = amplified f (n - 2)
  bitcrusherout : s.bitcrusherout = crushed f (n - 3)
  overdriveout : s.overdriveout = driven f (n - 4)

theorem front_powerUp : Front f 0 powerUp :=
  ⟨rfl, rfl, funext fun side => (silent_amplified f _ (by decide) side).symm,
    funext fun side => (silent_crushed f _ (by decide) side).symm,
    funext fun side => (silent_driven f _ (by decide) side).symm⟩

variable {f} {n : Nat} {s : State}

theorem succ_sub (n : Nat) {d e : Int} (h : e = d + 1) : ((n + 1 : Nat) : Int) - e = n - d := by omega

theorem Front.gainstageout_next (h : Front f n s) : ((f n).apply s).gainstageout = amplified f (n - 1) := by
  funext side
  rw [frame_gainstageout _ h.lrclk, h.sampleIn, amplified, gainstager, knobs_eq f (n := n) (by omega)]

theorem Front.next (h : Front f n s) : Front f (n + 1) ((f n).apply s) := by
  refine ⟨frame_lrclk _ h.lrclk, ?_, ?_, ?_, ?_⟩
  · funext side
    rw [frame_sampleIn _ h.lrclk, succ_sub n (show (1 : Int) = 0 + 1 from rfl), Int.sub_zero, heard_frame]
  · rw [h.gainstageout_next, succ_sub n (show (2 : Int) = 1 + 1 from rfl)]
  · rw [succ_sub n (show (3 : Int) = 2 + 1 from rfl)]
    funext side
    rw [crushed, bitcrusher, knobs_eq f (n := n) (by omega)]
    cases side with
    | left => rw [frame_bitcrusherout_left _ h.lrclk, h.gainstageout]; rfl
    | right =>
        have hbeside : ((f n .left).apply s).gainstageout = beside (amplified f) (n - 2) .right := by
          funext other
          cases other with
          | left =>
              have hnext := congrFun h.gainstageout_next .left
              rw [(kept_right (f n) h.lrclk).gainstageout] at hnext
              rw [hnext, beside]
              congr 1
              omega
          | right => rw [(kept_left (f n) h.lrclk).gainstageout, h.gainstageout]; rfl
        rw [frame_bitcrusherout_right _ h.lrclk, hbeside]
  · rw [succ_sub n (show (4 : Int) = 3 + 1 from rfl)]
    funext side
    rw [frame_overdriveout _ h.lrclk, h.bitcrusherout, driven, overdrive, knobs_eq f (n := n) (by omega)]

theorem front_frames (f : Nat → Frame) (n : Nat) : Front f n (frames f powerUp n) :=
  Clocked.Machine.run_invariant (Front f) (front_powerUp f) (fun _ _ => Front.next) n

end Front

end ECE385.Pedalboard.Pipeline
