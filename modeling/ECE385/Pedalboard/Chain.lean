import ECE385.Clocked.ShiftRegister
import ECE385.Pedalboard.Delay

namespace ECE385.Pedalboard.Chain

open Clocked.ShiftRegister
open Delay (clocked)
open Effects (Word Side Taps)

/-- SW[6:0] and the six tuning parameters. -/
structure Controls where
  sw : BitVec 7
  gain : BitVec 2
  bitdepth : BitVec 3
  clip : BitVec 3
  delaytime : BitVec 3
  tremfreq : BitVec 2
  cutoff : BitVec 2

structure State where
  lrclk : Bool
  dataIn : Word
  sampleIn : Side → Word
  gainstageout : Side → Word
  bitcrusherout : Side → Word
  overdriveout : Side → Word
  delay : Delay.State
  squarewave : BitVec 15
  tremoloout : Side → Word
  taps : Side → Taps
  sampleProcessed : Side → Word
  dataOut : Side → Word

/-- What i2s_in hands on: the word that it has shifted in, without the junk bit. -/
def junkless (data : Word) : Word := 0#1 ++ data.extractLsb' 0 31

/-- i2s_out sends the left word while LRCLK is low, the right one while it is high. -/
def transmitting (lrclk : Bool) : Side := if lrclk then .right else .left

def State.dout (s : State) : Bool := (s.dataOut (transmitting s.lrclk)).getLsbD 31

def State.delayInputs (k : Controls) (s : State) : Delay.Inputs :=
  ⟨k.sw.getLsbD 3, k.sw.getLsbD 6, k.delaytime, s.overdriveout⟩

/-- A rising edge of SCLK, or of CLK, between two edges of LRCLK. -/
inductive Tick
  | sclk (din : Bool)
  | clk (dontcare : Side → BitVec 16)

def Tick.din : Tick → Option Bool
  | .sclk din => some din
  | .clk _ => none

def State.tick (k : Controls) (s : State) : Tick → State
  | .sclk din =>
      { s with
        dataIn := s.dataIn.shiftConcat din
        dataOut := fun side =>
          if side = transmitting s.lrclk then (s.dataOut side).shiftConcat false else s.sampleProcessed side }
  | .clk dontcare => { s with delay := s.delay.clk (s.delayInputs k) s.lrclk dontcare }

/-- An edge of LRCLK. A rising one clocks the left registers of all the modules,
a falling one the right registers. -/
def State.edge (k : Controls) (s : State) : State :=
  let side := clocked (!s.lrclk)
  { s with
    lrclk := !s.lrclk
    sampleIn := Function.update s.sampleIn side (junkless s.dataIn)
    gainstageout := Function.update s.gainstageout side
      (Effects.gainstagerOut (k.sw.getLsbD 0) k.gain (s.sampleIn side))
    bitcrusherout := Function.update s.bitcrusherout side
      (Effects.bitcrusherOut side (k.sw.getLsbD 1) k.bitdepth s.gainstageout)
    overdriveout := Function.update s.overdriveout side
      (Effects.overdriveOut (k.sw.getLsbD 2) k.clip (s.bitcrusherout side))
    delay := s.delay.edge (s.delayInputs k) (!s.lrclk)
    squarewave := if s.lrclk then s.squarewave else s.squarewave + 1
    tremoloout := Function.update s.tremoloout side
      (Effects.tremoloOut (k.sw.getLsbD 4) k.tremfreq s.squarewave (s.delay.dout side))
    taps := Function.update s.taps side ((s.taps side).shift (Effects.sample (s.tremoloout side)))
    sampleProcessed := Function.update s.sampleProcessed side
      (Effects.lowpassfilterOut (k.sw.getLsbD 5) k.cutoff (s.taps side) (s.tremoloout side)) }

abbrev Ticks := List (Controls × Tick)

def bits (ts : Ticks) : List Bool := ts.filterMap fun t => t.2.din

def afterTicks (ts : Ticks) (s : State) : State := ts.foldl (fun s t => s.tick t.1 t.2) s

/-- DOUT as a receiver samples it, just before each rising edge of SCLK. -/
def sent : Ticks → State → List Bool
  | [], _ => []
  | (k, .sclk din) :: ts, s => s.dout :: sent ts (s.tick k (.sclk din))
  | (k, .clk dontcare) :: ts, s => sent ts (s.tick k (.clk dontcare))

/-- A half period of LRCLK with the edge that ends it. -/
structure Half where
  ticks : Ticks
  last : Controls
  sclks : (bits ticks).length = 32

def Half.apply (h : Half) (s : State) : State := (afterTicks h.ticks s).edge h.last

/-- A frame: the left half, with LRCLK low, and the right half. -/
def Frame := Side → Half

def Frame.apply (f : Frame) (s : State) : State := (f .right).apply ((f .left).apply s)

def Frame.sent (f : Frame) (s : State) : Side → List Bool
  | .left => Chain.sent (f .left).ticks s
  | .right => Chain.sent (f .right).ticks ((f .left).apply s)

def powerUp : State where
  lrclk := false
  dataIn := 0
  sampleIn _ := 0
  gainstageout _ := 0
  bitcrusherout _ := 0
  overdriveout _ := 0
  delay := ⟨fun _ => ⟨0, fun _ => 0, 0, 0⟩, fun _ => 0⟩
  squarewave := 0
  tremoloout _ := 0
  taps _ := ⟨0, fun _ => 0⟩
  sampleProcessed _ := 0
  dataOut _ := 0

/-- What the edges of SCLK and CLK do to the registers that LRCLK clocks: nothing. -/
structure Holding (s t : State) : Prop where
  lrclk : t.lrclk = s.lrclk
  sampleIn : t.sampleIn = s.sampleIn
  gainstageout : t.gainstageout = s.gainstageout
  bitcrusherout : t.bitcrusherout = s.bitcrusherout
  overdriveout : t.overdriveout = s.overdriveout
  delayout : t.delay.dout = s.delay.dout
  squarewave : t.squarewave = s.squarewave
  tremoloout : t.tremoloout = s.tremoloout
  taps : t.taps = s.taps
  sampleProcessed : t.sampleProcessed = s.sampleProcessed

theorem Holding.refl (s : State) : Holding s s := ⟨rfl, rfl, rfl, rfl, rfl, rfl, rfl, rfl, rfl, rfl⟩

theorem Holding.trans {s t u : State} (h : Holding s t) (h' : Holding t u) : Holding s u :=
  ⟨h'.lrclk.trans h.lrclk, h'.sampleIn.trans h.sampleIn, h'.gainstageout.trans h.gainstageout,
    h'.bitcrusherout.trans h.bitcrusherout, h'.overdriveout.trans h.overdriveout,
    h'.delayout.trans h.delayout, h'.squarewave.trans h.squarewave, h'.tremoloout.trans h.tremoloout,
    h'.taps.trans h.taps, h'.sampleProcessed.trans h.sampleProcessed⟩

theorem holding_tick (k : Controls) (s : State) (t : Tick) : Holding s (s.tick k t) := by
  cases t <;> exact ⟨rfl, rfl, rfl, rfl, rfl, rfl, rfl, rfl, rfl, rfl⟩

theorem holding_ticks (ts : Ticks) (s : State) : Holding s (afterTicks ts s) := by
  induction ts generalizing s with
  | nil => exact .refl s
  | cons t ts ih => exact (holding_tick t.1 s t.2).trans (ih _)

theorem dataIn_ticks (ts : Ticks) (s : State) :
    (afterTicks ts s).dataIn = received s.dataIn (bits ts) := by
  induction ts generalizing s with
  | nil => rfl
  | cons t ts ih =>
      obtain ⟨k, t⟩ := t
      cases t <;> exact ih _

theorem sent_eq (ts : Ticks) (s : State) :
    sent ts s = transmitted (s.dataOut (transmitting s.lrclk)) (bits ts).length := by
  induction ts generalizing s with
  | nil => rfl
  | cons t ts ih =>
      obtain ⟨k, t⟩ := t
      cases t with
      | sclk din =>
          have hshift : (s.tick k (.sclk din)).dataOut (transmitting s.lrclk) =
              (s.dataOut (transmitting s.lrclk)).shiftConcat false := if_pos rfl
          rw [sent, ih, (holding_tick k s _).lrclk, hshift]
          rfl
      | clk dontcare => exact ih _

theorem dataOut_ticks (ts : Ticks) (s : State) {side : Side} (hside : side ≠ transmitting s.lrclk)
    (h : s.dataOut side = s.sampleProcessed side ∨ bits ts ≠ []) :
    (afterTicks ts s).dataOut side = s.sampleProcessed side := by
  induction ts generalizing s with
  | nil => exact h.resolve_right fun hnil => hnil rfl
  | cons t ts ih =>
      obtain ⟨k, t⟩ := t
      cases t with
      | sclk din => exact ih _ hside (.inl (if_neg hside))
      | clk dontcare => exact ih _ hside h

/-- What a side takes at its own edge. -/
structure Took (k : Controls) (side : Side) (s t : State) : Prop where
  sampleIn : t.sampleIn side = junkless s.dataIn
  gainstageout : t.gainstageout side =
    Effects.gainstagerOut (k.sw.getLsbD 0) k.gain (s.sampleIn side)
  bitcrusherout : t.bitcrusherout side =
    Effects.bitcrusherOut side (k.sw.getLsbD 1) k.bitdepth s.gainstageout
  overdriveout : t.overdriveout side =
    Effects.overdriveOut (k.sw.getLsbD 2) k.clip (s.bitcrusherout side)
  delayout : t.delay.dout side =
    Delay.out (k.sw.getLsbD 3) (s.overdriveout side) (s.delay.line side).ram.q
  tremoloout : t.tremoloout side =
    Effects.tremoloOut (k.sw.getLsbD 4) k.tremfreq s.squarewave (s.delay.dout side)
  taps : t.taps side = (s.taps side).shift (Effects.sample (s.tremoloout side))
  sampleProcessed : t.sampleProcessed side =
    Effects.lowpassfilterOut (k.sw.getLsbD 5) k.cutoff (s.taps side) (s.tremoloout side)

/-- What a side keeps at the edge of the other one. -/
structure Kept (side : Side) (s t : State) : Prop where
  sampleIn : t.sampleIn side = s.sampleIn side
  gainstageout : t.gainstageout side = s.gainstageout side
  bitcrusherout : t.bitcrusherout side = s.bitcrusherout side
  overdriveout : t.overdriveout side = s.overdriveout side
  delayout : t.delay.dout side = s.delay.dout side
  tremoloout : t.tremoloout side = s.tremoloout side
  taps : t.taps side = s.taps side
  sampleProcessed : t.sampleProcessed side = s.sampleProcessed side

theorem Holding.kept {s t : State} (h : Holding s t) (side : Side) : Kept side s t :=
  ⟨congrFun h.sampleIn side, congrFun h.gainstageout side, congrFun h.bitcrusherout side,
    congrFun h.overdriveout side, congrFun h.delayout side, congrFun h.tremoloout side,
    congrFun h.taps side, congrFun h.sampleProcessed side⟩

theorem Kept.trans {side : Side} {s t u : State} (h : Kept side s t) (h' : Kept side t u) : Kept side s u :=
  ⟨h'.sampleIn.trans h.sampleIn, h'.gainstageout.trans h.gainstageout,
    h'.bitcrusherout.trans h.bitcrusherout, h'.overdriveout.trans h.overdriveout,
    h'.delayout.trans h.delayout, h'.tremoloout.trans h.tremoloout, h'.taps.trans h.taps,
    h'.sampleProcessed.trans h.sampleProcessed⟩

theorem took_edge (k : Controls) (s : State) : Took k (clocked (!s.lrclk)) s (s.edge k) :=
  ⟨Function.update_self .., Function.update_self .., Function.update_self .., Function.update_self ..,
    Function.update_self .., Function.update_self .., Function.update_self .., Function.update_self ..⟩

theorem kept_edge (k : Controls) {s : State} {side : Side} (h : side ≠ clocked (!s.lrclk)) :
    Kept side s (s.edge k) :=
  ⟨Function.update_of_ne h .., Function.update_of_ne h .., Function.update_of_ne h ..,
    Function.update_of_ne h .., Function.update_of_ne h .., Function.update_of_ne h ..,
    Function.update_of_ne h .., Function.update_of_ne h ..⟩

section Half

variable (h : Half) (s : State)

theorem half_lrclk : (h.apply s).lrclk = !s.lrclk :=
  congrArg (!·) (holding_ticks h.ticks s).lrclk

theorem half_dataOut : (h.apply s).dataOut = (afterTicks h.ticks s).dataOut := rfl

theorem half_bits : bits h.ticks ≠ [] := by
  intro hnil
  have hlength := h.sclks
  rw [hnil] at hlength
  exact Nat.noConfusion hlength

theorem took_half : Took h.last (clocked (!s.lrclk)) (afterTicks h.ticks s) (h.apply s) := by
  have htook := took_edge h.last (afterTicks h.ticks s)
  rwa [(holding_ticks h.ticks s).lrclk] at htook

theorem kept_half {side : Side} (hside : side ≠ clocked (!s.lrclk)) : Kept side s (h.apply s) := by
  have hold := holding_ticks h.ticks s
  rw [← hold.lrclk] at hside
  exact (hold.kept side).trans (kept_edge h.last hside)

theorem getLsbD_junkless (w : Word) (i : Nat) : (junkless w).getLsbD i = (decide (i < 31) && w.getLsbD i) := by
  have happend := BitVec.getLsbD_append (x := 0#1) (y := w.extractLsb' 0 31) (i := i)
  refine happend.trans ?_
  by_cases hi : i < 31 <;> simp [hi]

/-- The word that a side receives is sent on with a 0 for its junk bit. -/
theorem transmitted_junkless (w : Word) : transmitted (junkless w) 32 = false :: (transmitted w 32).tail := by
  rw [transmitted_eq _ le_rfl, transmitted_eq _ le_rfl, List.range_succ_eq_map, List.map_cons, List.map_cons,
    List.tail_cons, List.map_map, List.map_map]
  congr 1
  · rw [BitVec.getMsbD, getLsbD_junkless]
    rfl
  · apply List.map_congr_left
    intro i hi
    rw [List.mem_range] at hi
    have hindex : 32 - 1 - (i + 1) < 31 := by omega
    simp only [Function.comp_apply, BitVec.getMsbD, getLsbD_junkless, hindex, decide_true, Bool.true_and]

theorem took_bits {side : Side} (hside : side = clocked (!s.lrclk)) :
    transmitted ((h.apply s).sampleIn side) 32 = false :: (bits h.ticks).tail := by
  rw [hside, (took_half h s).sampleIn, dataIn_ticks, transmitted_junkless, transmitted_received _ h.sclks]

end Half

section Frame

variable (f : Frame) {s : State} (hlow : s.lrclk = false)

include hlow

theorem left_lrclk : ((f .left).apply s).lrclk = true := by
  rw [half_lrclk, hlow]
  rfl

theorem frame_lrclk : (f.apply s).lrclk = false := by
  rw [Frame.apply, half_lrclk, left_lrclk f hlow]
  rfl

theorem took_left : Took (f .left).last .left (afterTicks (f .left).ticks s) ((f .left).apply s) := by
  have htook := took_half (f .left) s
  rwa [hlow] at htook

theorem kept_left : Kept .right s ((f .left).apply s) :=
  kept_half _ _ (by rw [hlow]; decide)

theorem took_right :
    Took (f .right).last .right (afterTicks (f .right).ticks ((f .left).apply s)) (f.apply s) := by
  have htook := took_half (f .right) ((f .left).apply s)
  rwa [left_lrclk f hlow] at htook

theorem kept_right : Kept .left ((f .left).apply s) (f.apply s) :=
  kept_half _ _ (by rw [left_lrclk f hlow]; decide)

theorem frame_loaded : (f.apply s).dataOut .left = (f.apply s).sampleProcessed .left := by
  have hright := left_lrclk f hlow
  rw [(kept_right f hlow).sampleProcessed, Frame.apply, half_dataOut]
  exact dataOut_ticks _ _ (by rw [hright]; decide) (.inr (half_bits _))

theorem sent_left : f.sent s .left = transmitted (s.dataOut .left) 32 := by
  rw [Frame.sent, sent_eq, (f .left).sclks, hlow]
  rfl

theorem sent_right : f.sent s .right = transmitted (s.sampleProcessed .right) 32 := by
  rw [Frame.sent, sent_eq, (f .right).sclks, left_lrclk f hlow, half_dataOut]
  refine congrArg (transmitted · 32) ?_
  exact dataOut_ticks _ _ (by rw [hlow]; decide) (.inr (half_bits _))

end Frame

end ECE385.Pedalboard.Chain
