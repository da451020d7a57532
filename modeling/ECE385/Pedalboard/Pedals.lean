import ECE385.Pedalboard.Chain

namespace ECE385.Pedalboard.Pedals

open Chain (Controls)
open Delay (quarter)
open Effects (Word Side Taps sample)

/-- The words of both sides, frame by frame from the first one, 0, after power-up.
The frames before it are silent. -/
abbrev Signal := Int → Side → Word

/-- The controls that a pedal finds for each word. -/
abbrev Knobs := Int → Side → Controls

/-- The controls at the edges of CLK that count for a word in the delay: the one
that stores it, the one that reads what is fed back into it, and the one that
reads its echo. -/
structure Clocks where
  store : Controls
  feed : Controls
  read : Controls

variable (k : Knobs) (c : Int → Side → Clocks) (x : Signal)

def gainstager : Signal := fun n side =>
  Effects.gainstagerOut ((k n side).sw.getLsbD 0) (k n side).gain (x n side)

/-- The left word has moved on when a right word is taken. -/
def beside (n : Int) : Side → Side → Word
  | .left, other => x n other
  | .right, .left => x (n + 1) .left
  | .right, .right => x n .right

def bitcrusher : Signal := fun n side =>
  Effects.bitcrusherOut side ((k n side).sw.getLsbD 1) (k n side).bitdepth (beside x n side)

def overdrive : Signal := fun n side =>
  Effects.overdriveOut ((k n side).sw.getLsbD 2) (k n side).clip (x n side)

def distance (delaytime : BitVec 3) : Nat := 128 * 2 ^ delaytime.toNat

theorem distance_pos (delaytime : BitVec 3) : 0 < distance delaytime :=
  Nat.mul_pos (by decide) (Nat.two_pow_pos _)

/-- What the delay stores of a side, with its own echo when the feedback is on. -/
def echo (side : Side) (n : Int) : BitVec 16 :=
  if n < -1 then 0
  else Delay.sample (x n side) +
    if (c n side).store.sw.getLsbD 6 then quarter (echo side (n - distance (c n side).feed.delaytime)) else 0
termination_by (n + 2).toNat
decreasing_by
  have := distance_pos (c n side).feed.delaytime
  omega

def delay : Signal := fun n side =>
  Delay.out ((k n side).sw.getLsbD 3) (x n side) (echo c x side (n - distance (c n side).read.delaytime))

def tremolo (squarewave : Int → Side → BitVec 15) : Signal := fun n side =>
  Effects.tremoloOut ((k n side).sw.getLsbD 4) (k n side).tremfreq (squarewave n side) (x n side)

/-- What the filter remembers when word `n` comes in. -/
def recent (n : Int) (side : Side) : Taps :=
  ⟨sample (x (n - 1) side), fun i => sample (x (n - 2 - (i : Nat)) side)⟩

def lowpassfilter : Signal := fun n side =>
  Effects.lowpassfilterOut ((k n side).sw.getLsbD 5) (k n side).cutoff (recent x n side) (x n side)

def Silent (b : Int) (x : Signal) : Prop := ∀ n, n < b → ∀ side, x n side = 0

section Zero

variable (enable : Bool)

theorem gainstagerOut_zero (gain : BitVec 2) : Effects.gainstagerOut enable gain 0 = 0 := by
  revert enable gain
  decide

theorem bitcrusherOut_zero (side : Side) (bitdepth : BitVec 3) :
    Effects.bitcrusherOut side enable bitdepth (fun _ => 0) = 0 := by
  cases side <;> revert enable bitdepth <;> decide

theorem overdriveOut_zero (clip : BitVec 3) : Effects.overdriveOut enable clip 0 = 0 := by
  revert enable clip
  decide

theorem delayOut_zero : Delay.out enable 0 0 = 0 := by
  cases enable <;> rfl

theorem tremoloOut_zero (tremfreq : BitVec 2) (squarewave : BitVec 15) :
    Effects.tremoloOut enable tremfreq squarewave 0 = 0 := by
  rw [Effects.tremoloOut]
  cases enable <;> cases Effects.tremclk tremfreq squarewave <;> rfl

theorem lowpassfilterOut_zero (cutoff : BitVec 2) :
    Effects.lowpassfilterOut enable cutoff ⟨0, fun _ => 0⟩ 0 = 0 := by
  revert enable cutoff
  decide

end Zero

section Silent

variable {k c x} {b : Int}

theorem Silent.gainstager (h : Silent b x) : Silent b (gainstager k x) := by
  intro n hn side
  rw [Pedals.gainstager, h n hn side, gainstagerOut_zero]

theorem Silent.bitcrusher (h : Silent (b + 1) x) : Silent b (bitcrusher k x) := by
  intro n hn side
  have hsilent : beside x n side = fun _ => 0 := by
    funext other
    cases side with
    | left => exact h n (by omega) other
    | right =>
        cases other with
        | left => exact h (n + 1) (by omega) .left
        | right => exact h n (by omega) .right
  rw [Pedals.bitcrusher, hsilent, bitcrusherOut_zero]

theorem Silent.overdrive (h : Silent b x) : Silent b (overdrive k x) := by
  intro n hn side
  rw [Pedals.overdrive, h n hn side, overdriveOut_zero]

theorem echo_before {side : Side} {n : Int} (hn : n < -1) : echo c x side n = 0 := by
  rw [echo, if_pos hn]

theorem echo_from {side : Side} {n : Int} (hn : ¬n < -1) : echo c x side n =
    Delay.sample (x n side) + if (c n side).store.sw.getLsbD 6 then
      quarter (echo c x side (n - distance (c n side).feed.delaytime)) else 0 := by
  rw [echo, if_neg hn]

theorem Silent.delay (h : Silent (-1) x) : Silent (-1) (delay k c x) := by
  intro n hn side
  have hbefore : n - distance (c n side).read.delaytime < -1 := by omega
  rw [Pedals.delay, h n hn side, echo_before hbefore, delayOut_zero]

theorem Silent.tremolo {squarewave : Int → Side → BitVec 15} (h : Silent b x) :
    Silent b (tremolo k x squarewave) := by
  intro n hn side
  rw [Pedals.tremolo, h n hn side, tremoloOut_zero]

theorem Silent.recent (h : Silent b x) {n : Int} (hn : n < b) (side : Side) :
    recent x n side = ⟨0, fun _ => 0⟩ := by
  have hpast (i : Fin 15) : x (n - 2 - (i : Nat)) side = 0 := h _ (by omega) side
  have hlast : x (n - 1) side = 0 := h _ (by omega) side
  simp only [Pedals.recent, hpast, hlast]
  rfl

theorem Silent.lowpassfilter (h : Silent b x) : Silent b (lowpassfilter k x) := by
  intro n hn side
  rw [Pedals.lowpassfilter, h.recent hn side, h n hn side, lowpassfilterOut_zero]

end Silent

end ECE385.Pedalboard.Pedals
