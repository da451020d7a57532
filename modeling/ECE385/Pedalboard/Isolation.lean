import ECE385.Pedalboard.Agreement
import ECE385.Pedalboard.Bypass

namespace ECE385.Pedalboard.Isolation

open Agreement Chain
open Bypass (frames)
open Clocked.ShiftRegister
open Delay (clocked)
open Effects (Word Side Taps)

def AlikeTick (a b : Controls × Tick) : Prop := a.1 = b.1 ∧ a.2.din.isSome = b.2.din.isSome

/-- The same edges under the same controls. The bits received may differ. -/
structure Alike (h h' : Half) : Prop where
  ticks : List.Forall₂ AlikeTick h.ticks h'.ticks
  last : h.last = h'.last

/-- The registers of one side agree in two runs, except that the word in the
bitcrusher may differ below the sample unless `P`, and the word in the overdrive
below the sample of the delay unless `Q`. -/
structure Regs (side : Side) (P Q : Prop) (s t : State) : Prop where
  sampleIn : Agree 0 (s.sampleIn side) (t.sampleIn side)
  gainstageout : Agree 0 (s.gainstageout side) (t.gainstageout side)
  crushed : Agree 7 (s.bitcrusherout side) (t.bitcrusherout side)
  bitcrusherout : P → Agree 0 (s.bitcrusherout side) (t.bitcrusherout side)
  driven : Agree 15 (s.overdriveout side) (t.overdriveout side)
  overdriveout : Q → Agree 0 (s.overdriveout side) (t.overdriveout side)
  delayout : Agree 0 (s.delay.dout side) (t.delay.dout side)
  tremoloout : Agree 0 (s.tremoloout side) (t.tremoloout side)
  taps : s.taps side = t.taps side
  sampleProcessed : Agree 0 (s.sampleProcessed side) (t.sampleProcessed side)

theorem Regs.refl (side : Side) (P Q : Prop) (s : State) : Regs side P Q s s :=
  ⟨.refl _ _, .refl _ _, .refl _ _, fun _ => .refl _ _, .refl _ _, fun _ => .refl _ _, .refl _ _,
    .refl _ _, rfl, .refl _ _⟩

section Regs

variable {side : Side} {P Q : Prop} {s s' t t' : State}

theorem Regs.kept (h : Regs side P Q s t) (hs : Kept side s s') (ht : Kept side t t') :
    Regs side P Q s' t' := by
  refine ⟨?_, ?_, ?_, ?_, ?_, ?_, ?_, ?_, ?_, ?_⟩
  · rw [hs.sampleIn, ht.sampleIn]; exact h.sampleIn
  · rw [hs.gainstageout, ht.gainstageout]; exact h.gainstageout
  · rw [hs.bitcrusherout, ht.bitcrusherout]; exact h.crushed
  · rw [hs.bitcrusherout, ht.bitcrusherout]; exact h.bitcrusherout
  · rw [hs.overdriveout, ht.overdriveout]; exact h.driven
  · rw [hs.overdriveout, ht.overdriveout]; exact h.overdriveout
  · rw [hs.delayout, ht.delayout]; exact h.delayout
  · rw [hs.tremoloout, ht.tremoloout]; exact h.tremoloout
  · rw [hs.taps, ht.taps]; exact h.taps
  · rw [hs.sampleProcessed, ht.sampleProcessed]; exact h.sampleProcessed

/-- One edge of the side. The word leaving the bitcrusher agrees as far as the
words entering it do: on `R` when the low bits of the left words agree. -/
theorem Regs.took {R : Prop} {k : Controls} (h : Regs side P Q s t) (hs : Took k side s s')
    (ht : Took k side t t') (hin : Agree 0 (junkless s.dataIn) (junkless t.dataIn))
    (hline : s.delay.line side = t.delay.line side) (hsquarewave : s.squarewave = t.squarewave)
    (hlow : R → k.sw.getLsbD 1 = true →
      ∀ i, i < 7 → (s.gainstageout .left).getLsbD i = (t.gainstageout .left).getLsbD i)
    (hoff : k.sw.getLsbD 3 = false → Q) : Regs side R P s' t' := by
  refine ⟨?_, ?_, ?_, fun hR => ?_, ?_, fun hP => ?_, ?_, ?_, ?_, ?_⟩
  · rw [hs.sampleIn, ht.sampleIn]
    exact hin
  · rw [hs.gainstageout, ht.gainstageout]
    exact agree_gainstager _ _ h.sampleIn
  · rw [hs.bitcrusherout, ht.bitcrusherout]
    exact agree_bitcrusher_sample side _ _ (h.gainstageout.mono (by decide))
  · rw [hs.bitcrusherout, ht.bitcrusherout]
    exact agree_bitcrusher side _ _ h.gainstageout (hlow hR)
  · rw [hs.overdriveout, ht.overdriveout]
    exact agree_overdrive _ _ h.crushed le_rfl (.inr (by decide))
  · rw [hs.overdriveout, ht.overdriveout]
    exact agree_overdrive _ _ (h.bitcrusherout hP) (by decide) (.inl rfl)
  · rw [hs.delayout, ht.delayout, hline]
    exact agree_delay _ _ h.driven fun henable => h.overdriveout (hoff henable)
  · rw [hs.tremoloout, ht.tremoloout, hsquarewave]
    exact agree_tremolo _ _ _ h.delayout
  · rw [hs.taps, ht.taps, h.taps, (h.tremoloout.mono (by decide)).sample]
  · rw [hs.sampleProcessed, ht.sampleProcessed, h.taps]
    exact agree_lowpassfilter _ _ _ h.tremoloout

end Regs

structure Pair (side : Side) (P Q : Prop) (s t : State) : Prop where
  regs : Regs side P Q s t
  lrclk : s.lrclk = t.lrclk
  squarewave : s.squarewave = t.squarewave
  line : s.delay.line side = t.delay.line side

section Pair

variable {side : Side} {P Q : Prop} {s t : State}

theorem Pair.line_tick (h : Pair side P Q s t) {a b : Controls × Tick} (hab : AlikeTick a b) :
    (s.tick a.1 a.2).delay.line side = (t.tick b.1 b.2).delay.line side := by
  obtain ⟨k, a⟩ := a
  obtain ⟨k', b⟩ := b
  obtain ⟨rfl, hkind⟩ := hab
  cases a with
  | sclk din =>
      cases b with
      | sclk din' => exact h.line
      | clk dontcare => exact Bool.noConfusion hkind
  | clk dontcare =>
      cases b with
      | sclk din => exact Bool.noConfusion hkind
      | clk dontcare' =>
          unfold State.tick
          rw [Delay.clk_line, Delay.clk_line]
          have hdata : Delay.sample ((s.delayInputs k).din side) = Delay.sample ((t.delayInputs k).din side) :=
            h.regs.driven.delaySample
          rw [hdata, h.line, h.lrclk]
          exact Delay.clk_congr rfl rfl ..

theorem Pair.tick (h : Pair side P Q s t) {a b : Controls × Tick} (hab : AlikeTick a b) :
    Pair side P Q (s.tick a.1 a.2) (t.tick b.1 b.2) := by
  have hs := holding_tick a.1 s a.2
  have ht := holding_tick b.1 t b.2
  exact ⟨h.regs.kept (hs.kept side) (ht.kept side), by rw [hs.lrclk, ht.lrclk, h.lrclk],
    by rw [hs.squarewave, ht.squarewave, h.squarewave], h.line_tick hab⟩

theorem Pair.ticks {as bs : Ticks} (hab : List.Forall₂ AlikeTick as bs) (h : Pair side P Q s t) :
    Pair side P Q (afterTicks as s) (afterTicks bs t) := by
  induction hab generalizing s t with
  | nil => exact h
  | cons hab _ ih => exact ih (h.tick hab)

theorem edge_squarewave (k : Controls) (s : State) :
    (s.edge k).squarewave = if s.lrclk then s.squarewave else s.squarewave + 1 := rfl

section Half

variable {h h' : Half} (hh : Alike h h') (hst : Pair side P Q s t)

include hh hst

theorem Pair.half_kept (hside : side ≠ clocked (!s.lrclk)) : Pair side P Q (h.apply s) (h'.apply t) := by
  have hticks := hst.ticks hh.ticks
  have hs := (holding_ticks h.ticks s).lrclk
  have ht := (holding_ticks h'.ticks t).lrclk
  refine ⟨hst.regs.kept (kept_half h s hside) (kept_half h' t (hst.lrclk ▸ hside)), ?_, ?_, ?_⟩
  · rw [half_lrclk, half_lrclk, hst.lrclk]
  · rw [Half.apply, Half.apply, edge_squarewave, edge_squarewave, hticks.lrclk, hticks.squarewave]
  · have hs' : side ≠ clocked (!(afterTicks h.ticks s).lrclk) := by rwa [hs]
    have ht' : side ≠ clocked (!(afterTicks h'.ticks t).lrclk) := by rwa [← hticks.lrclk]
    exact (Delay.edge_line_other _ _ _ hs').trans (hticks.line.trans (Delay.edge_line_other _ _ _ ht').symm)

theorem Pair.half_took {R : Prop} (hside : side = clocked (!s.lrclk))
    (hin : Agree 0 (junkless (received s.dataIn (bits h.ticks))) (junkless (received t.dataIn (bits h'.ticks))))
    (hlow : R → h.last.sw.getLsbD 1 = true →
      ∀ i, i < 7 → (s.gainstageout .left).getLsbD i = (t.gainstageout .left).getLsbD i)
    (hoff : h.last.sw.getLsbD 3 = false → Q) : Pair side R P (h.apply s) (h'.apply t) := by
  have hticks := hst.ticks hh.ticks
  have hs := took_half h s
  have ht := took_half h' t
  rw [← hside] at hs
  rw [← hst.lrclk, ← hside, ← hh.last] at ht
  rw [← dataIn_ticks, ← dataIn_ticks] at hin
  rw [← (holding_ticks h.ticks s).gainstageout, ← (holding_ticks h'.ticks t).gainstageout] at hlow
  refine ⟨hticks.regs.took hs ht hin hticks.line hticks.squarewave hlow hoff, ?_, ?_, ?_⟩
  · rw [half_lrclk, half_lrclk, hst.lrclk]
  · rw [Half.apply, Half.apply, edge_squarewave, edge_squarewave, hticks.lrclk, hticks.squarewave]
  · have hs' : clocked (!(afterTicks h.ticks s).lrclk) = side := by rw [(holding_ticks h.ticks s).lrclk, hside]
    have hedge := Delay.edge_line ((afterTicks h.ticks s).delayInputs h.last)
      (!(afterTicks h.ticks s).lrclk) (afterTicks h.ticks s).delay
    have hedge' := Delay.edge_line ((afterTicks h'.ticks t).delayInputs h'.last)
      (!(afterTicks h'.ticks t).lrclk) (afterTicks h'.ticks t).delay
    have ht' : clocked (!(afterTicks h'.ticks t).lrclk) = side := by rw [← hticks.lrclk, hs']
    rw [hs'] at hedge
    rw [ht'] at hedge'
    exact hedge.trans ((congrArg Delay.Line.next hticks.line).trans hedge'.symm)

end Half

end Pair

theorem agree_iff_tail (w v : Word) : Agree 0 w v ↔ (transmitted w 32).tail = (transmitted v 32).tail := by
  rw [← List.drop_one, ← List.drop_one, drop_transmitted_eq_iff]
  exact ⟨fun h i hi => h i (Nat.zero_le i) hi, fun h i _ hi => h i hi⟩

theorem agree_received {h h' : Half} (hwords : (bits h.ticks).tail = (bits h'.ticks).tail) (w v : Word) :
    Agree 0 (junkless (received w (bits h.ticks))) (junkless (received v (bits h'.ticks))) := by
  rw [agree_iff_tail, transmitted_junkless, transmitted_junkless, transmitted_received _ h.sclks,
    transmitted_received _ h'.sclks]
  exact hwords

theorem low_gainstager (enable : Bool) (gain : BitVec 2) (w : Word) {i : Nat} (hi : i < 7) :
    (Effects.gainstagerOut enable gain w).getLsbD i = w.getLsbD i := by
  rw [Effects.gainstagerOut]
  split
  · rw [getLsbD_pack _ _ (by omega), if_pos hi]
  · rfl

section Frame

variable {f f' : Frame} (hf : ∀ side, Alike (f side) (f' side)) {P Q : Prop} {s t : State}
  (hs : s.lrclk = false)

include hf hs

theorem pair_left (R : Prop) (hst : Pair .left P Q s t)
    (hwords : (bits (f .left).ticks).tail = (bits (f' .left).ticks).tail)
    (hoff : (f .left).last.sw.getLsbD 3 = false → Q) : Pair .left R P (f.apply s) (f'.apply t) := by
  refine Pair.half_kept (hf .right) (.half_took (hf .left) hst (by rw [hs]; rfl)
    (agree_received hwords _ _) (fun _ _ => hst.regs.gainstageout.low) hoff) ?_
  rw [left_lrclk f hs]
  decide

theorem pair_right {R : Prop} (hst : Pair .right P Q s t)
    (hwords : (bits (f .right).ticks).tail = (bits (f' .right).ticks).tail)
    (hlow : R → (f .right).last.sw.getLsbD 1 = true →
      ∀ i, i < 7 → (s.sampleIn .left).getLsbD i = (t.sampleIn .left).getLsbD i)
    (hoff : (f .right).last.sw.getLsbD 3 = false → Q) : Pair .right R P (f.apply s) (f'.apply t) := by
  have ht : t.lrclk = false := hst.lrclk ▸ hs
  have hleft := hst.half_kept (hf .left) (by rw [hs]; decide)
  refine hleft.half_took (hf .right) (by rw [left_lrclk f hs]; rfl) (agree_received hwords _ _)
    (fun hR hon i hi => ?_) hoff
  rw [(took_left f hs).gainstageout, (took_left f' ht).gainstageout, low_gainstager _ _ _ hi,
    low_gainstager _ _ _ hi, (holding_ticks _ s).sampleIn, (holding_ticks _ t).sampleIn]
  exact hlow hR hon i hi

end Frame

def word (f : Nat → Frame) (side : Side) (n : Nat) : List Bool := (bits (f n side).ticks).tail

def DelayOff (f : Nat → Frame) (side : Side) (n : Nat) : Prop := (f n side).last.sw.getLsbD 3 = false

/-- At the falling edge of frame `m` nothing of the left word stays in the right
one: the bitcrusher is off, or the last seven bits that it takes from the left
word, of frame `m - 1`, are the same in both runs, or the delay will be on when
the word gets there. -/
def Clean (f f' : Nat → Frame) (m : Nat) : Prop :=
  (f m .right).last.sw.getLsbD 1 = false ∨
    (∀ j, m = j + 1 → (bits (f j .left).ticks).drop 25 = (bits (f' j .left).ticks).drop 25) ∨
    ¬DelayOff f .right (m + 2)

section Runs

variable {f f' : Nat → Frame} (hf : ∀ n side, Alike (f n side) (f' n side)) {s : State}
  (hs : s.lrclk = false)

include hs

theorem low_left {n : Nat}
    (h : ∀ j, n = j + 1 → (bits (f j .left).ticks).drop 25 = (bits (f' j .left).ticks).drop 25) (i : Nat)
    (hi : i < 7) :
    ((frames f s n).sampleIn .left).getLsbD i = ((frames f' s n).sampleIn .left).getLsbD i := by
  cases n with
  | zero => rfl
  | succ j =>
      have hfirst := Bypass.stage_first (f j) (Bypass.frames_lrclk (f := f) hs j) .left
      have hfirst' := Bypass.stage_first (f' j) (Bypass.frames_lrclk (f := f') hs j) .left
      refine (drop_transmitted_eq_iff _ _ 25).mp ?_ i hi
      refine (congrArg (List.drop 25) hfirst).trans (Eq.trans ?_ (congrArg (List.drop 25) hfirst').symm)
      rw [List.drop_succ_cons, List.drop_succ_cons, List.drop_tail, List.drop_tail]
      exact h j rfl

include hf

theorem pair_frames (side : Side) (hwords : ∀ n, word f side n = word f' side n)
    (hclean : side = .right → ∀ m, Clean f f' m) (n : Nat) :
    Pair side (DelayOff f side (n + 1)) (DelayOff f side n) (frames f s n) (frames f' s n) := by
  induction n with
  | zero => exact ⟨.refl .., rfl, rfl, rfl⟩
  | succ n ih =>
      have hlrclk := Bypass.frames_lrclk (f := f) hs n
      cases side with
      | left => exact pair_left (hf n) hlrclk _ ih (hwords n) id
      | right =>
          refine pair_right (hf n) hlrclk ih (hwords n) (fun hoff hon i hi => ?_) id
          rcases hclean rfl n with hcrush | hlow | hdelay
          · exact Bool.noConfusion (hon.symm.trans hcrush)
          · exact low_left hs hlow i hi
          · exact absurd hoff hdelay

theorem sent_eq_sent (side : Side) (hwords : ∀ n, word f side n = word f' side n)
    (hclean : side = .right → ∀ m, Clean f f' m) (n : Nat) :
    ((f n).sent (frames f s n) side).tail = ((f' n).sent (frames f' s n) side).tail := by
  have hpair := pair_frames hf hs side hwords hclean n
  have hlrclk := Bypass.frames_lrclk (f := f) hs n
  have hlrclk' := Bypass.frames_lrclk (f := f') hs n
  have hprocessed := (agree_iff_tail _ _).mp hpair.regs.sampleProcessed
  cases side with
  | right => rwa [sent_right _ hlrclk, sent_right _ hlrclk']
  | left =>
      rw [sent_left _ hlrclk, sent_left _ hlrclk']
      cases n with
      | zero => rfl
      | succ n =>
          have hloaded := frame_loaded (f n) (Bypass.frames_lrclk (f := f) hs n)
          have hloaded' := frame_loaded (f' n) (Bypass.frames_lrclk (f := f') hs n)
          exact (congrArg (fun w => (transmitted w 32).tail) hloaded).trans
            (hprocessed.trans (congrArg (fun w => (transmitted w 32).tail) hloaded').symm)

end Runs

/-- What the left channel sends does not depend on what the right one receives,
and, in runs whose frames are all clean, the other way round. -/
theorem channels_isolated (f f' : Nat → Frame) (s : State) (hf : ∀ n side, Alike (f n side) (f' n side))
    (hs : s.lrclk = false) :
    ((∀ n, word f .left n = word f' .left n) →
      ∀ n, ((f n).sent (frames f s n) .left).tail = ((f' n).sent (frames f' s n) .left).tail) ∧
    ((∀ n, word f .right n = word f' .right n) → (∀ m, Clean f f' m) →
      ∀ n, ((f n).sent (frames f s n) .right).tail = ((f' n).sent (frames f' s n) .right).tail) := by
  constructor
  · intro hwords n
    exact sent_eq_sent hf hs .left hwords (fun h => Side.noConfusion h) n
  · intro hwords hclean n
    exact sent_eq_sent hf hs .right hwords (fun _ => hclean) n

def steadyFrame (sw : BitVec 7) (b : Bool) : Frame := fun side =>
  let k : Controls := ⟨sw, 0, 0, 0, 0, 0, 0⟩
  let last := if side = .left then b else false
  { ticks := (List.replicate 31 false ++ [last]).map fun bit => (k, .sclk bit)
    last := k
    sclks := by simp [bits, Tick.din] }

theorem alike_steady (sw : BitVec 7) (b b' : Bool) (side : Side) :
    Alike (steadyFrame sw b side) (steadyFrame sw b' side) := by
  refine ⟨?_, rfl⟩
  unfold steadyFrame
  simp only [List.forall₂_map_left_iff, List.forall₂_map_right_iff]
  rw [List.forall₂_iff_zip]
  exact ⟨by simp, fun _ => ⟨rfl, rfl⟩⟩

theorem channels_isolated_delay :
    ((steadyFrame 10 true).sent (frames (fun _ => steadyFrame 10 true) powerUp 6) .right).tail =
      ((steadyFrame 10 false).sent (frames (fun _ => steadyFrame 10 false) powerUp 6) .right).tail := by
  have hbit : (10 : BitVec 7).getLsbD 3 = true := by decide
  have hon (m : Nat) : ¬DelayOff (fun _ => steadyFrame 10 true) .right m :=
    fun h => Bool.noConfusion (hbit.symm.trans h)
  exact (channels_isolated (fun _ => steadyFrame 10 true) (fun _ => steadyFrame 10 false) powerUp
    (fun _ => alike_steady 10 true false) rfl).2 (fun _ => rfl) (fun m => .inr (.inr (hon _))) 6

/-- Bitcrusher on, everything else off: the last bit of the left word reaches the
right channel. -/
theorem bitcrusher_leaks :
    ¬ ∀ f f' : Nat → Frame, (∀ n side, Alike (f n side) (f' n side)) →
      (∀ n, word f .right n = word f' .right n) →
      ∀ n, ((f n).sent (frames f powerUp n) .right).tail = ((f' n).sent (frames f' powerUp n) .right).tail := by
  intro h
  have hsame := h (fun _ => steadyFrame 2 true) (fun _ => steadyFrame 2 false)
    (fun _ => alike_steady 2 true false) (fun _ => rfl) 6
  revert hsame
  decide +kernel

end ECE385.Pedalboard.Isolation
