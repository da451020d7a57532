import ECE385.Clocked.Machine
import ECE385.Pedalboard.Chain

namespace ECE385.Pedalboard.Bypass

open Chain
open Clocked.ShiftRegister
open Effects (Word Side)

/-- SW[5:0] are down. -/
def Off (k : Controls) : Prop := ∀ i, i < 6 → k.sw.getLsbD i = false

/-- The registers that a word of one side passes through, in order. -/
def stage (s : State) (side : Side) : Nat → Word
  | 0 => s.sampleIn side
  | 1 => s.gainstageout side
  | 2 => s.bitcrusherout side
  | 3 => s.overdriveout side
  | 4 => s.delay.dout side
  | 5 => s.tremoloout side
  | _ => s.sampleProcessed side

theorem stage_kept {s t : State} {side : Side} (h : Kept side s t) (i : Nat) :
    stage t side i = stage s side i := by
  unfold stage
  split
  · exact h.sampleIn
  · exact h.gainstageout
  · exact h.bitcrusherout
  · exact h.overdriveout
  · exact h.delayout
  · exact h.tremoloout
  · exact h.sampleProcessed

theorem stage_held {s t : State} (h : Holding s t) (side : Side) (i : Nat) :
    stage t side i = stage s side i := by
  unfold stage
  rw [h.sampleIn, h.gainstageout, h.bitcrusherout, h.overdriveout, h.delayout, h.tremoloout,
    h.sampleProcessed]

/-- With its pedal off, each module hands on the word of the module before. -/
theorem stage_took {k : Controls} {s t : State} {side : Side} (hoff : Off k) (h : Took k side s t) {i : Nat}
    (hi : i < 6) : stage t side (i + 1) = stage s side i := by
  have hoff' (j : Nat) (hj : j < 6) : ¬k.sw.getLsbD j = true := by rw [hoff j hj]; exact Bool.false_ne_true
  match i, hi with
  | 0, hi => exact h.gainstageout.trans (if_neg (hoff' 0 hi))
  | 1, hi => exact h.bitcrusherout.trans (if_neg (hoff' 1 hi))
  | 2, hi => exact h.overdriveout.trans (if_neg (hoff' 2 hi))
  | 3, hi => exact h.delayout.trans (if_neg (hoff' 3 hi))
  | 4, hi => exact h.tremoloout.trans (if_neg (hoff' 4 hi))
  | 5, hi => exact h.sampleProcessed.trans (if_neg (hoff' 5 hi))

section Frame

variable (f : Frame) {s : State} (hlow : s.lrclk = false) (side : Side)

include hlow

theorem stage_next (hoff : Off (f side).last) {i : Nat} (hi : i < 6) :
    stage (f.apply s) side (i + 1) = stage s side i := by
  cases side with
  | left =>
      rw [stage_kept (kept_right f hlow), stage_took hoff (took_left f hlow) hi,
        stage_held (holding_ticks _ s)]
  | right =>
      rw [stage_took hoff (took_right f hlow) hi, stage_held (holding_ticks _ _),
        stage_kept (kept_left f hlow)]

theorem stage_first : transmitted (stage (f.apply s) side 0) 32 = false :: (bits (f side).ticks).tail := by
  cases side with
  | left =>
      rw [stage_kept (kept_right f hlow)]
      exact took_bits (f .left) s (by rw [hlow]; rfl)
  | right => exact took_bits (f .right) _ (by rw [left_lrclk f hlow]; rfl)

end Frame

abbrev frames (f : Nat → Frame) (s : State) (n : Nat) : State :=
  Clocked.Machine.run Frame.apply f s n

theorem frames_lrclk {f : Nat → Frame} {s : State} (hlow : s.lrclk = false) (n : Nat) :
    (frames f s n).lrclk = false :=
  Clocked.Machine.run_invariant (fun _ (t : State) => t.lrclk = false) hlow (fun n _ ht => frame_lrclk (f n) ht) n

theorem stage_frames {f : Nat → Frame} {s : State} (hlow : s.lrclk = false)
    (hoff : ∀ n side, Off (f n side).last) (side : Side) (n : Nat) {i : Nat} (hi : i ≤ 6) :
    stage (frames f s (n + i)) side i = stage (frames f s n) side 0 := by
  induction i with
  | zero => rfl
  | succ i ih =>
      rw [← ih (by omega)]
      exact stage_next _ (frames_lrclk hlow _) side (hoff _ _) hi

/-- With all pedals off the board sends in frame `n + 7` what it receives in
frame `n`, on the same side, with a 0 for the junk bit. -/
theorem bypass_transparent (f : Nat → Frame) (s : State) (hlow : s.lrclk = false)
    (hoff : ∀ n side, Off (f n side).last) (n : Nat) (side : Side) :
    (f (n + 7)).sent (frames f s (n + 7)) side = false :: (bits (f n side).ticks).tail := by
  have hlow' (m : Nat) : (frames f s m).lrclk = false := frames_lrclk hlow m
  have hstage := congrArg (transmitted · 32) (stage_frames hlow hoff side (n + 1) le_rfl)
  refine Eq.trans ?_ (hstage.trans (stage_first (f n) (hlow' n) side))
  cases side with
  | left =>
      rw [sent_left _ (hlow' (n + 7))]
      exact congrArg (transmitted · 32) (frame_loaded (f (n + 6)) (hlow' (n + 6)))
  | right => exact sent_right _ (hlow' (n + 7))

def ones : Frame := fun _ =>
  { ticks := List.replicate 32 (⟨0, 0, 0, 0, 0, 0, 0⟩, .sclk true)
    last := ⟨0, 0, 0, 0, 0, 0, 0⟩
    sclks := by simp [bits, Tick.din] }

theorem bypass_transparent_ones :
    ones.sent (frames (fun _ => ones) powerUp 7) .right = false :: List.replicate 31 true :=
  bypass_transparent (fun _ => ones) powerUp rfl (fun _ _ _ _ => BitVec.getLsbD_zero) 0 .right

end ECE385.Pedalboard.Bypass
