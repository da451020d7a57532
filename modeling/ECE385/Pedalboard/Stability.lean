import ECE385.Pedalboard.Delay

namespace ECE385.Pedalboard.Stability

open Delay (Inputs Line sample quarter wren clocked)
open Effects (Word Side)

/-- What can happen to the pedal: an edge of CLK or one of LRCLK. -/
inductive Event
  | clk (i : Inputs) (dontcare : Side → BitVec 16)
  | lrclk (i : Inputs)

def Event.inputs : Event → Inputs
  | .clk i _ | .lrclk i => i

structure Pedal where
  lrclk : Bool
  delay : Delay.State

def Pedal.apply (p : Pedal) : Event → Pedal
  | .clk i dontcare => { p with delay := p.delay.clk i p.lrclk dontcare }
  | .lrclk i => ⟨!p.lrclk, p.delay.edge i (!p.lrclk)⟩

/-- The output registers and the level of LRCLK play no part. -/
def powerUp (lrclk : Bool) (dout : Side → Word) : Pedal := ⟨lrclk, fun _ => ⟨0, fun _ => 0, 0, 0⟩, dout⟩

def runs (es : List Event) (p : Pedal) : Pedal := es.foldl Pedal.apply p

/-- Within three quarters of full scale. -/
def Quiet (i : Inputs) : Prop :=
  ∀ side, -24576 ≤ (sample (i.din side)).toInt ∧ (sample (i.din side)).toInt ≤ 24575

def Bounded (d : BitVec 16) : Prop := -32768 ≤ d.toInt ∧ d.toInt ≤ 32766

/-- All the words that a line can still give back are bounded. -/
structure Stable (l : Line) : Prop where
  mem : ∀ a, Bounded (l.ram.mem a)
  core : Bounded l.ram.core
  q : Bounded l.ram.q

theorem toInt_add_quarter {x d : BitVec 16} (hlow : -24576 ≤ x.toInt) (hhigh : x.toInt ≤ 24575) (hd : Bounded d) :
    (x + quarter d).toInt = x.toInt + d.toInt / 4 := by
  obtain ⟨hd, hd'⟩ := hd
  have hquarter : (quarter d).toInt = d.toInt / 4 := by
    rw [quarter, BitVec.toInt_sshiftRight, Int.shiftRight_eq_div_pow]
    rfl
  rw [BitVec.toInt_add, hquarter]
  exact Int.bmod_eq_of_le (by omega) (by omega)

section Line

variable {i : Inputs} (hi : Quiet i) {side : Side} {l : Line} (hl : Stable l)

include hi hl

theorem mixed_exact : (sample (i.din side) + quarter l.ram.q).toInt =
    (sample (i.din side)).toInt + l.ram.q.toInt / 4 :=
  toInt_add_quarter (hi side).1 (hi side).2 hl.q

theorem writeData_bounded : Bounded (l.writeData i.feedback (sample (i.din side))) := by
  obtain ⟨hlow, hhigh⟩ := hi side
  obtain ⟨hq, hq'⟩ := hl.q
  rw [Line.writeData]
  split
  · rw [Bounded, mixed_exact hi hl]
    omega
  · exact ⟨by omega, by omega⟩

theorem Stable.clk (wren : Bool) (dontcare : BitVec 16) : Stable (l.clk i (sample (i.din side)) wren dontcare) := by
  have hram := Delay.clk_ram i (sample (i.din side)) wren dontcare l
  refine ⟨fun a => ?_, ?_, ?_⟩
  · rw [hram]
    cases wren with
    | false => exact hl.mem a
    | true =>
        simp only [if_true]
        rw [Function.update_apply]
        split
        · exact writeData_bounded hi hl
        · exact hl.mem a
  · rw [hram]
    exact hl.mem _
  · rw [hram]
    exact hl.core

end Line

theorem Stable.next {l : Line} (h : Stable l) : Stable l.next := ⟨h.mem, h.core, h.q⟩

def AllStable (p : Pedal) : Prop := ∀ side, Stable (p.delay.line side)

theorem allStable_powerUp (lrclk : Bool) (dout : Side → Word) : AllStable (powerUp lrclk dout) := by
  have hzero : Bounded 0 := ⟨by decide, by decide⟩
  exact fun side => ⟨fun _ => hzero, hzero, hzero⟩

theorem AllStable.apply {p : Pedal} (h : AllStable p) {e : Event} (he : Quiet e.inputs) : AllStable (p.apply e) := by
  intro side
  cases e with
  | clk i dontcare => exact Stable.clk he (h side) ..
  | lrclk i =>
      by_cases hside : side = clocked (!p.lrclk)
      · subst hside
        rw [Pedal.apply, Delay.edge_line]
        exact (h _).next
      · rw [Pedal.apply, Delay.edge_line_other _ _ _ hside]
        exact h side

theorem AllStable.runs {p : Pedal} (h : AllStable p) (es : List Event) (hes : ∀ e ∈ es, Quiet e.inputs) :
    AllStable (runs es p) := by
  induction es generalizing p with
  | nil => exact h
  | cons e es ih =>
      obtain ⟨he, hes⟩ := List.forall_mem_cons.mp hes
      exact ih (h.apply he) hes

/-- Fed back through its quarter, an input within three quarters of full scale
never leaves the words of the memory, and no addition wraps round. -/
theorem echo_stable (lrclk : Bool) (dout : Side → Word) (es : List Event) (h : ∀ e ∈ es, Quiet e.inputs)
    (side : Side) :
    (∀ a, Bounded (((runs es (powerUp lrclk dout)).delay.line side).ram.mem a)) ∧
    ∀ i, Quiet i →
      (sample (Delay.out true (i.din side) ((runs es (powerUp lrclk dout)).delay.line side).ram.q)).toInt =
          (sample (i.din side)).toInt + ((runs es (powerUp lrclk dout)).delay.line side).ram.q.toInt / 4 ∧
        (((runs es (powerUp lrclk dout)).delay.line side).writeData true (sample (i.din side))).toInt =
          (sample (i.din side)).toInt + ((runs es (powerUp lrclk dout)).delay.line side).ram.q.toInt / 4 := by
  have hstable := (allStable_powerUp lrclk dout).runs es h side
  refine ⟨hstable.mem, fun i hi => ⟨?_, ?_⟩⟩
  · rw [Delay.sample_out]
    exact mixed_exact hi hstable
  · rw [Line.writeData, if_pos rfl]
    exact mixed_exact hi hstable

def loud : Inputs := ⟨true, true, 0, fun _ => 0x2FFF8000#32⟩

theorem loud_quiet : Quiet loud := by
  intro side
  cases side <;> decide

/-- 128 words of the left line are written, and then the first of them is read. -/
def echoing : List Event :=
  (List.replicate 128 [.clk loud fun _ => 0, .lrclk loud, .lrclk loud]).flatten ++
    [.clk loud fun _ => 0, .clk loud fun _ => 0]

theorem echo_stable_echoing :
    (sample (Delay.out true (loud.din .left) ((runs echoing (powerUp true fun _ => 0)).delay.line .left).ram.q)).toInt =
        24575 + 24575 / 4 ∧
    (((runs echoing (powerUp true fun _ => 0)).delay.line .left).writeData true (sample (loud.din .left))).toInt =
        24575 + 24575 / 4 := by
  have hes : ∀ e ∈ echoing, Quiet e.inputs := by
    intro e he
    have hinputs : e.inputs = loud := by
      have hall : ∀ e' ∈ [Event.clk loud fun _ => 0, .lrclk loud, .lrclk loud], e'.inputs = loud := by simp [Event.inputs]
      rcases List.mem_append.mp he with he | he
      · obtain ⟨es, hes, hmem⟩ := List.mem_flatten.mp he
        rw [List.eq_of_mem_replicate hes] at hmem
        exact hall e hmem
      · rw [List.eq_of_mem_replicate (n := 2) he]
        rfl
    rw [hinputs]
    exact loud_quiet
  have hq : ((runs echoing (powerUp true fun _ => 0)).delay.line .left).ram.q = 24575 := by decide +kernel
  have hmixed := (echo_stable true (fun _ => 0) echoing hes .left).2 loud loud_quiet
  rw [hq] at hmixed ⊢
  exact hmixed

end ECE385.Pedalboard.Stability
