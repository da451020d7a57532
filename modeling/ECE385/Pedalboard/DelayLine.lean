import ECE385.Pedalboard.Pipeline

namespace ECE385.Pedalboard.DelayLine

open Chain
open Delay (Line quarter wren)
open Effects (Word Side)
open Pipeline (clks clock)

def delayInputs (din : Side → Word) (k : Controls) : Delay.Inputs :=
  ⟨k.sw.getLsbD 3, k.sw.getLsbD 6, k.delaytime, din⟩

/-- The edges of CLK `es`, the last one first, as a line takes them. -/
def clkLine (lrclk : Bool) (din : Side → Word) (side : Side) (es : List (Controls × (Side → BitVec 16))) (l : Line) : Line :=
  es.foldr (fun e l => l.clk (delayInputs din e.1) (Delay.sample (din side)) (wren lrclk side) (e.2 side)) l

theorem line_ticks (ts : Ticks) (s : State) (side : Side) :
    (afterTicks ts s).delay.line side = clkLine s.lrclk s.overdriveout side (clks ts) (s.delay.line side) := by
  rw [clkLine, clks, List.foldr_reverse]
  induction ts generalizing s with
  | nil => rfl
  | cons t ts ih =>
      obtain ⟨k, t⟩ := t
      cases t with
      | sclk din => exact ih (s.tick k (.sclk din))
      | clk dontcare => exact ih (s.tick k (.clk dontcare))

section Line

variable {lrclk : Bool} {din : Side → Word} {side : Side} (es : List (Controls × (Side → BitVec 16))) (l : Line)

theorem clkLine_cons (e : Controls × (Side → BitVec 16)) : clkLine lrclk din side (e :: es) l =
    (clkLine lrclk din side es l).clk (delayInputs din e.1) (Delay.sample (din side)) (wren lrclk side) (e.2 side) := rfl

/-- Only the word under the write address can change. -/
theorem clkLine_others : (clkLine lrclk din side es l).writeadd = l.writeadd ∧
    ∀ a, a ≠ l.writeadd → (clkLine lrclk din side es l).ram.mem a = l.ram.mem a := by
  induction es with
  | nil => exact ⟨rfl, fun _ _ => rfl⟩
  | cons e es ih =>
      obtain ⟨hwriteadd, hothers⟩ := ih
      refine ⟨hwriteadd, fun a ha => ?_⟩
      rw [← hothers a ha, clkLine_cons, Delay.clk_ram]
      cases wren lrclk side with
      | false => rfl
      | true => exact Function.update_of_ne (hwriteadd ▸ ha) ..

theorem clkLine_mem (hw : wren lrclk side = false) : (clkLine lrclk din side es l).ram.mem = l.ram.mem := by
  induction es with
  | nil => rfl
  | cons e es ih =>
      rw [← ih, clkLine_cons, Delay.clk_ram, hw]
      rfl

/-- An edge reads what was in the memory before the half period. -/
theorem clkLine_core (e : Controls × (Side → BitVec 16)) :
    (clkLine lrclk din side (e :: es) l).ram.core = l.ram.mem (l.readadd e.1.delaytime) := by
  obtain ⟨hwriteadd, hothers⟩ := @clkLine_others lrclk din side es l
  rw [clkLine_cons, Delay.clk_ram, Line.readadd, hwriteadd]
  exact hothers _ (Delay.readadd_ne _ l)

theorem clkLine_q (e₀ e₁ : Controls × (Side → BitVec 16)) :
    (clkLine lrclk din side (e₀ :: e₁ :: es) l).ram.q = l.ram.mem (l.readadd e₁.1.delaytime) := by
  rw [clkLine_cons, Delay.clk_ram]
  exact clkLine_core es l e₁

theorem clkLine_written (hw : wren lrclk side = true) (e₀ e₁ e₂ : Controls × (Side → BitVec 16)) :
    (clkLine lrclk din side (e₀ :: e₁ :: e₂ :: es) l).ram.mem l.writeadd = Delay.sample (din side) +
      if e₀.1.sw.getLsbD 6 then quarter (l.ram.mem (l.readadd e₂.1.delaytime)) else 0 := by
  have hwriteadd := (@clkLine_others lrclk din side (e₁ :: e₂ :: es) l).1
  have hq := @clkLine_q lrclk din side es l e₁ e₂
  rw [clkLine_cons, Delay.clk_ram, hw]
  simp only [if_true]
  rw [hwriteadd, Function.update_self, Line.writeData, hq, delayInputs]
  cases e₀.1.sw.getLsbD 6 with
  | false => exact (BitVec.add_zero _).symm
  | true => rfl

end Line

section Half

variable (h : Half) (s : State) {side : Side} (hrunning : 3 ≤ (clks h.ticks).length)

include hrunning

theorem exists_clks : ∃ e₀ e₁ e₂ es, clks h.ticks = e₀ :: e₁ :: e₂ :: es ∧
    clock h 0 = e₀.1 ∧ clock h 1 = e₁.1 ∧ clock h 2 = e₂.1 := by
  obtain ⟨e₀, es, hclks⟩ := List.exists_cons_of_length_pos (Nat.lt_of_lt_of_le (by decide) hrunning)
  rw [hclks, List.length_cons, Nat.succ_le_succ_iff] at hrunning
  obtain ⟨e₁, es, rfl⟩ := List.exists_cons_of_length_pos (Nat.lt_of_lt_of_le (by decide) hrunning)
  rw [List.length_cons, Nat.succ_le_succ_iff] at hrunning
  obtain ⟨e₂, es, rfl⟩ := List.exists_cons_of_length_pos hrunning
  refine ⟨e₀, e₁, e₂, es, hclks, ?_, ?_, ?_⟩
  all_goals
    rw [clock, hclks]
    rfl

theorem half_writes (hw : wren s.lrclk side = true) :
    ((afterTicks h.ticks s).delay.line side).writeadd = (s.delay.line side).writeadd ∧
    ((afterTicks h.ticks s).delay.line side).ram.mem =
      Function.update (s.delay.line side).ram.mem (s.delay.line side).writeadd
        (Delay.sample (s.overdriveout side) + if (clock h 0).sw.getLsbD 6 then
          quarter ((s.delay.line side).ram.mem ((s.delay.line side).readadd (clock h 2).delaytime)) else 0) := by
  obtain ⟨e₀, e₁, e₂, es, hclks, h0, -, h2⟩ := exists_clks h hrunning
  have hline := line_ticks h.ticks s side
  rw [hclks] at hline
  obtain ⟨hwriteadd, hothers⟩ := @clkLine_others s.lrclk s.overdriveout side (e₀ :: e₁ :: e₂ :: es) (s.delay.line side)
  rw [hline, h0, h2]
  refine ⟨hwriteadd, funext fun a => ?_⟩
  rw [Function.update_apply]
  split
  next ha => rw [ha, clkLine_written es _ hw]
  next ha => exact hothers a ha

theorem half_reads (hw : wren s.lrclk side = false) :
    ((afterTicks h.ticks s).delay.line side).writeadd = (s.delay.line side).writeadd ∧
    ((afterTicks h.ticks s).delay.line side).ram.mem = (s.delay.line side).ram.mem ∧
    ((afterTicks h.ticks s).delay.line side).ram.q =
      (s.delay.line side).ram.mem ((s.delay.line side).readadd (clock h 1).delaytime) := by
  obtain ⟨e₀, e₁, e₂, es, hclks, -, h1, -⟩ := exists_clks h hrunning
  have hline := line_ticks h.ticks s side
  rw [hclks] at hline
  rw [hline, h1]
  exact ⟨(clkLine_others ..).1, clkLine_mem _ _ hw, clkLine_q ..⟩

end Half

end ECE385.Pedalboard.DelayLine
