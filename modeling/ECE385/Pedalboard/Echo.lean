import ECE385.Clocked.Machine
import ECE385.Clocked.RingBuffer
import ECE385.Pedalboard.Delay

namespace ECE385.Pedalboard.Echo

open Clocked.RingBuffer
open Delay (Line Inputs State sample quarter)
open Effects (Word Side)

structure Tick where
  inputs : Inputs
  dontcare : Side → BitVec 16

def writeLevel : Side → Bool
  | .left => true
  | .right => false

/-- One frame of a side, from one of its edges to the next: the half period in
which its memory is written, the edge of the other side, and the other half.
Its own inputs are steady. -/
structure Frame (side : Side) where
  enable : Bool
  feedback : Bool
  delaytime : BitVec 3
  din : Word
  writing : List Tick
  middle : Inputs
  idle : List Tick
  last : Inputs
  four_le_writing : 4 ≤ writing.length
  four_le_idle : 4 ≤ idle.length
  steady : ∀ i ∈ last :: (writing ++ idle).map Tick.inputs,
    i.enable = enable ∧ i.feedback = feedback ∧ i.delaytime = delaytime ∧ i.din side = din

def ticks (lrclk : Bool) (ts : List Tick) (s : State) : State :=
  ts.foldl (fun s t => s.clk t.inputs lrclk t.dontcare) s

section Side

variable {side : Side}

def Frame.halves (f : Frame side) (s : State) : State :=
  ticks (!writeLevel side) f.idle ((ticks (writeLevel side) f.writing s).edge f.middle (!writeLevel side))

def Frame.apply (f : Frame side) (s : State) : State := (f.halves s).edge f.last (writeLevel side)

def Frame.distance (f : Frame side) : Nat := 128 * 2 ^ f.delaytime.toNat

theorem Frame.distance_pos (f : Frame side) : 0 < f.distance :=
  Nat.mul_pos (by decide) (Nat.two_pow_pos _)

theorem Frame.distance_lt (f : Frame side) : f.distance < 2 ^ 15 := by
  have hlt : ∀ t : BitVec 3, 128 * 2 ^ t.toNat < 2 ^ 15 := by decide
  exact hlt f.delaytime

theorem Frame.offset_eq (f : Frame side) : Delay.offset f.delaytime = BitVec.ofNat 15 f.distance := by
  have heq : ∀ t : BitVec 3, Delay.offset t = BitVec.ofNat 15 (128 * 2 ^ t.toNat) := by decide
  exact heq f.delaytime

/-- What the pedal stores in frame `n`; frames count from 1. -/
def echo (f : Nat → Frame side) : Nat → BitVec 16
  | 0 => 0
  | n + 1 =>
      sample (f (n + 1)).din +
        if (f (n + 1)).feedback then quarter (echo f (n + 1 - (f (n + 1)).distance)) else 0
termination_by n => n
decreasing_by exact Nat.sub_lt (Nat.succ_pos n) (Frame.distance_pos _)

/-- The line `l` after `k` CLK edges of a half period in which it is written,
starting from `l₀`, with the same sample `data` throughout. -/
structure Filling (feedback : Bool) (delaytime : BitVec 3) (data : BitVec 16) (l₀ l : Line) (k : Nat) :
    Prop where
  writeadd : l.writeadd = l₀.writeadd
  others : ∀ a, a ≠ l₀.writeadd → l.ram.mem a = l₀.ram.mem a
  core : 0 < k → l.ram.core = l₀.ram.mem (l₀.readadd delaytime)
  q : 1 < k → l.ram.q = l₀.ram.mem (l₀.readadd delaytime)
  written : 2 < k → l.ram.mem l₀.writeadd =
    if feedback then data + quarter (l₀.ram.mem (l₀.readadd delaytime)) else data

theorem Filling.refl (feedback : Bool) (delaytime : BitVec 3) (data : BitVec 16) (l : Line) :
    Filling feedback delaytime data l l 0 :=
  ⟨rfl, fun _ _ => rfl, by omega, by omega, by omega⟩

theorem Filling.readadd {feedback : Bool} {delaytime : BitVec 3} {data : BitVec 16} {l₀ l : Line} {k : Nat}
    (h : Filling feedback delaytime data l₀ l k) : l.readadd delaytime = l₀.readadd delaytime := by
  rw [Line.readadd, h.writeadd, Line.readadd]

section Clk

variable {i : Inputs} {data : BitVec 16} {l₀ l : Line} {k : Nat}

theorem Filling.clk (dontcare : BitVec 16) (h : Filling i.feedback i.delaytime data l₀ l k) :
    Filling i.feedback i.delaytime data l₀ (l.clk i data true dontcare) (k + 1) := by
  have hread : l.ram.mem (l.readadd i.delaytime) = l₀.ram.mem (l₀.readadd i.delaytime) := by
    rw [h.readadd]
    exact h.others _ (Delay.readadd_ne i.delaytime l₀)
  refine ⟨h.writeadd, fun a ha => ?_, fun _ => ?_, fun hk => ?_, fun hk => ?_⟩
  · rw [Delay.clk_ram]
    simp only [if_true]
    rw [Function.update_of_ne (h.writeadd ▸ ha)]
    exact h.others a ha
  · rw [Delay.clk_ram]
    exact hread
  · rw [Delay.clk_ram]
    exact h.core (by omega)
  · rw [Delay.clk_ram]
    simp only [if_true]
    rw [← h.writeadd, Function.update_self, Line.writeData, h.q (by omega)]

theorem Filling.wait (dontcare : BitVec 16) (h : Filling i.feedback i.delaytime data l₀ l 3) :
    Filling i.feedback i.delaytime data l₀ (l.clk i data false dontcare) 3 := by
  have hread : l.ram.mem (l.readadd i.delaytime) = l₀.ram.mem (l₀.readadd i.delaytime) := by
    rw [h.readadd]
    exact h.others _ (Delay.readadd_ne i.delaytime l₀)
  refine ⟨h.writeadd, fun a ha => ?_, fun _ => ?_, fun _ => ?_, fun _ => ?_⟩
  · rw [Delay.clk_ram]
    exact h.others a ha
  · rw [Delay.clk_ram]
    exact hread
  · rw [Delay.clk_ram]
    exact h.core (by omega)
  · rw [Delay.clk_ram]
    exact h.written (by omega)

end Clk

theorem Filling.settled {feedback : Bool} {delaytime : BitVec 3} {data : BitVec 16} {l₀ l : Line} {k : Nat}
    (h : Filling feedback delaytime data l₀ l k) (hk : 3 ≤ k) : Filling feedback delaytime data l₀ l 3 :=
  ⟨h.writeadd, h.others, fun _ => h.core (by omega), fun _ => h.q (by omega), fun _ => h.written (by omega)⟩

theorem wren_writeLevel (side : Side) : Delay.wren (writeLevel side) side = true := by
  cases side <;> rfl

theorem wren_not_writeLevel (side : Side) : Delay.wren (!writeLevel side) side = false := by
  cases side <;> rfl

theorem clocked_writeLevel (side : Side) : Delay.clocked (writeLevel side) = side := by
  cases side <;> rfl

theorem side_ne_clocked (side : Side) : side ≠ Delay.clocked (!writeLevel side) := by
  cases side <;> decide

def Steady (f : Frame side) (i : Inputs) : Prop :=
  i.enable = f.enable ∧ i.feedback = f.feedback ∧ i.delaytime = f.delaytime ∧ i.din side = f.din

section Frame

variable (f : Frame side) (l₀ : Line)

abbrev Reached (s : State) (k : Nat) : Prop :=
  Filling f.feedback f.delaytime (sample f.din) l₀ (s.line side) k

theorem reached_writing (ts : List Tick) (hts : ∀ t ∈ ts, Steady f t.inputs) (s : State) (k : Nat)
    (h : Reached f l₀ s k) : Reached f l₀ (ticks (writeLevel side) ts s) (k + ts.length) := by
  induction ts generalizing s k with
  | nil => exact h
  | cons t ts ih =>
      obtain ⟨_, hfeedback, hdelaytime, hdin⟩ := hts t List.mem_cons_self
      have hstep : Reached f l₀ (s.clk t.inputs (writeLevel side) t.dontcare) (k + 1) := by
        rw [Reached, Delay.clk_line, wren_writeLevel, hdin, ← hfeedback, ← hdelaytime]
        rw [Reached, ← hfeedback, ← hdelaytime] at h
        exact h.clk _
      rw [List.length_cons, Nat.add_comm ts.length, ← Nat.add_assoc]
      exact ih (fun t ht => hts t (List.mem_cons_of_mem _ ht)) _ _ hstep

theorem reached_idle (ts : List Tick) (hts : ∀ t ∈ ts, Steady f t.inputs) (s : State)
    (h : Reached f l₀ s 3) : Reached f l₀ (ticks (!writeLevel side) ts s) 3 := by
  induction ts generalizing s with
  | nil => exact h
  | cons t ts ih =>
      obtain ⟨_, hfeedback, hdelaytime, hdin⟩ := hts t List.mem_cons_self
      have hstep : Reached f l₀ (s.clk t.inputs (!writeLevel side) t.dontcare) 3 := by
        rw [Reached, Delay.clk_line, wren_not_writeLevel, hdin, ← hfeedback, ← hdelaytime]
        rw [Reached, ← hfeedback, ← hdelaytime] at h
        exact h.wait _
      exact ih (fun t ht => hts t (List.mem_cons_of_mem _ ht)) _ hstep

end Frame

theorem apply_settled (f : Frame side) (s : State) :
    ∃ l, Filling f.feedback f.delaytime (sample f.din) (s.line side) l 3 ∧
      (f.apply s).line side = l.next ∧ (f.apply s).dout side = Delay.out f.enable f.din l.ram.q := by
  have hsteady (i : Inputs) (hi : i ∈ f.last :: (f.writing ++ f.idle).map Tick.inputs) : Steady f i :=
    f.steady i hi
  have hwriting : ∀ t ∈ f.writing, Steady f t.inputs := fun t ht =>
    hsteady _ (List.mem_cons_of_mem _ (List.mem_map_of_mem (List.mem_append_left _ ht)))
  have hidle : ∀ t ∈ f.idle, Steady f t.inputs := fun t ht =>
    hsteady _ (List.mem_cons_of_mem _ (List.mem_map_of_mem (List.mem_append_right _ ht)))
  have hwritten := reached_writing f _ f.writing hwriting s 0 (.refl ..)
  have hlength := f.four_le_writing
  have hmiddle : Reached f (s.line side)
      ((ticks (writeLevel side) f.writing s).edge f.middle (!writeLevel side)) 3 := by
    rw [Reached, Delay.edge_line_other _ _ _ (side_ne_clocked side)]
    exact hwritten.settled (by omega)
  have hedge := Delay.edge_line f.last (writeLevel side) (f.halves s)
  have hdout := Delay.edge_dout f.last (writeLevel side) (f.halves s)
  obtain ⟨henable, _, _, hdin⟩ := hsteady f.last List.mem_cons_self
  rw [clocked_writeLevel] at hedge hdout
  rw [henable, hdin] at hdout
  exact ⟨(f.halves s).line side, reached_idle f _ f.idle hidle _ hmiddle, hedge, hdout⟩

def Recorded (f : Nat → Frame side) (n : Nat) (s : State) : Prop :=
  Holds (s.line side).ram.mem (s.line side).writeadd (echo f) n

section Frames

variable {f : Nat → Frame side} {n : Nat} {s : State} (h : Recorded f (n + 1) s)

include h

theorem read_back : (s.line side).ram.mem ((s.line side).readadd (f (n + 1)).delaytime) =
    echo f (n + 1 - (f (n + 1)).distance) := by
  rw [Line.readadd, Frame.offset_eq]
  exact h _ (Frame.distance_pos _) (Frame.distance_lt _)

theorem recorded_next : Recorded f (n + 2) ((f (n + 1)).apply s) := by
  obtain ⟨l, hl, hline, _⟩ := apply_settled (f (n + 1)) s
  have hmem : l.ram.mem = Function.update (s.line side).ram.mem (s.line side).writeadd (echo f (n + 1)) := by
    funext a
    rw [Function.update_apply]
    split
    · rename_i ha
      rw [ha, hl.written (by decide), read_back h, echo]
      split <;> simp
    · rename_i ha
      exact hl.others a ha
  rw [Recorded, hline, Line.next, hmem, hl.writeadd]
  exact h.push

theorem dout_next : ((f (n + 1)).apply s).dout side =
    Delay.out (f (n + 1)).enable (f (n + 1)).din (echo f (n + 1 - (f (n + 1)).distance)) := by
  obtain ⟨l, hl, _, hdout⟩ := apply_settled (f (n + 1)) s
  rw [hdout, hl.q (by decide), read_back h]

end Frames

/-- The pedal at power-up. The output registers play no part. -/
def powerUp (dout : Side → Word) : State := ⟨fun _ => ⟨0, fun _ => 0, 0, 0⟩, dout⟩

/-- The state in which frame 1 begins. When LRCLK powers up at the level at which
the side is not written, an incomplete frame comes before it. -/
def start (side : Side) (dout : Side → Word) : Option (List Tick × Inputs) → State
  | none => powerUp dout
  | some (idle, last) => (ticks (!writeLevel side) idle (powerUp dout)).edge last (writeLevel side)

theorem mem_idle (ts : List Tick) (s : State) :
    ((ticks (!writeLevel side) ts s).line side).ram.mem = (s.line side).ram.mem := by
  induction ts generalizing s with
  | nil => rfl
  | cons t ts ih =>
      refine (ih _).trans ?_
      rw [Delay.clk_line, wren_not_writeLevel, Delay.clk_ram]
      rfl

theorem recorded_start (f : Nat → Frame side) (dout : Side → Word) (pre : Option (List Tick × Inputs)) :
    Recorded f 1 (start side dout pre) := by
  have hsilent (p : BitVec 15) : Holds (fun _ => 0) p (echo f) 1 := by
    have hfirst := holds_first p (echo f)
    rw [echo] at hfirst
    exact hfirst
  cases pre with
  | none => exact hsilent 0
  | some pre =>
      obtain ⟨idle, last⟩ := pre
      have hedge := Delay.edge_line last (writeLevel side) (ticks (!writeLevel side) idle (powerUp dout))
      rw [clocked_writeLevel] at hedge
      rw [Recorded, start, hedge, Line.next, mem_idle]
      exact hsilent _

abbrev frames (f : Nat → Frame side) (s : State) (n : Nat) : State :=
  Clocked.Machine.run Frame.apply (fun k => f (k + 1)) s n

theorem recorded_frames {f : Nat → Frame side} {s : State} (h : Recorded f 1 s) (n : Nat) :
    Recorded f (n + 1) (frames f s n) :=
  Clocked.Machine.run_invariant (fun n s => Recorded f (n + 1) s) h (fun _ _ => recorded_next) n

end Side

/-- At the end of every frame since power-up the pedal registers its input, plus
a quarter of what it stored `distance` frames ago when it is on. -/
theorem echo_exact (side : Side) (f : Nat → Frame side) (dout : Side → Word)
    (pre : Option (List Tick × Inputs)) (n : Nat) :
    ((f (n + 1)).enable = false → (frames f (start side dout pre) (n + 1)).dout side = (f (n + 1)).din) ∧
    ((f (n + 1)).enable = true →
      sample ((frames f (start side dout pre) (n + 1)).dout side) =
          sample (f (n + 1)).din + quarter (echo f (n + 1 - (f (n + 1)).distance)) ∧
        ((frames f (start side dout pre) (n + 1)).dout side).extractLsb' 0 15 = 0#15) ∧
    ∀ (l : Line) (delaytime : BitVec 3), l.readadd delaytime ≠ l.writeadd := by
  have hdout := dout_next (recorded_frames (recorded_start f dout pre) n)
  rw [← Clocked.Machine.run_succ Frame.apply (fun k => f (k + 1))] at hdout
  refine ⟨fun henable => ?_, fun henable => ?_, fun l delaytime => Delay.readadd_ne delaytime l⟩
  · rw [hdout, henable]
    rfl
  · rw [hdout, henable]
    exact ⟨Delay.sample_out .., Delay.low_out ..⟩

def pluck (n : Nat) : Frame .left :=
  let din : Word := if n = 1 then 0x00020000#32 else 0
  let inputs : Inputs := ⟨true, false, 0, fun _ => din⟩
  { enable := true
    feedback := false
    delaytime := 0
    din := din
    writing := List.replicate 4 ⟨inputs, fun _ => 0⟩
    middle := inputs
    idle := List.replicate 4 ⟨inputs, fun _ => 0⟩
    last := inputs
    four_le_writing := le_rfl
    four_le_idle := le_rfl
    steady := by simp [List.replicate, inputs] }

theorem echo_exact_pluck :
    sample ((frames pluck (start .left (fun _ => 0) none) 129).dout .left) = 1 := by
  obtain ⟨_, hon, _⟩ := echo_exact .left pluck (fun _ => 0) none 128
  have hdistance : 129 - (pluck 129).distance = 1 := rfl
  rw [(hon rfl).1, hdistance, echo]
  rfl

end ECE385.Pedalboard.Echo
