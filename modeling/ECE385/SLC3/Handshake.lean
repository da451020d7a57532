import Mathlib.Data.Nat.Count
import ECE385.SLC3.Pause

namespace ECE385.SLC3.Handshake

open Clocked.Machine SLC3.Cycle
open Instruction (arch AtFetch)
open Pause (Paused)

instance : DecidablePred Paused := fun _ => inferInstanceAs (Decidable (_ ∨ _))

def Leaves (y : Nat → Inputs) (c : Core) (n : Nat) : Prop :=
  Paused (run step y c n) ∧ ¬Paused (run step y c (n + 1))

instance (y : Nat → Inputs) (c : Core) : DecidablePred (Leaves y c) :=
  fun _ => inferInstanceAs (Decidable (_ ∧ _))

/-- Continue goes from 1 to 0 between the cycle before `n` and `n`. -/
def Falls (y : Nat → Inputs) : Nat → Prop
  | 0 => False
  | n + 1 => (y n).cont = true ∧ (y (n + 1)).cont = false

instance (y : Nat → Inputs) : DecidablePred (Falls y)
  | 0 => inferInstanceAs (Decidable False)
  | _ + 1 => inferInstanceAs (Decidable (_ ∧ _))

/-- Continue is pressed in cycle `a`, let go in cycle `b` and not pressed again
before cycle `e`. -/
structure Press (y : Nat → Inputs) (a b e : Nat) : Prop where
  held : ∀ n, a ≤ n → n < b → (y n).cont = true
  free : ∀ n, b ≤ n → n < e → (y n).cont = false

theorem Press.falls_at {y : Nat → Inputs} {a b e : Nat} (h : Press y a b e) {n : Nat} (ha : a ≤ n)
    (he : n < e) (hn : Falls y n) : n = b := by
  cases n with
  | zero => exact hn.elim
  | succ n =>
      obtain ⟨hbefore, hnow⟩ := hn
      have hlate : b ≤ n + 1 := by
        by_contra hlt
        exact Bool.false_ne_true (hnow.symm.trans (h.held (n + 1) ha (Nat.lt_of_not_le hlt)))
      by_contra hne
      have hfree := h.free n (by omega) (Nat.lt_of_succ_lt he)
      exact Bool.false_ne_true (hfree.symm.trans hbefore)

theorem entered_by_pse {i : Inputs} {c : Core} (hout : ¬Paused c) (hin : Paused (step i c)) :
    c.slc.isdu = .s32 ∧ Isa.decode c.slc.dp.ir = .pse := by
  rcases hin with h | h
  · obtain ⟨hdecode, hop⟩ := (ISDU.pauseIR1_of_nextState h).resolve_left fun h => hout (.inl h)
    exact ⟨hdecode, (Instruction.decode_pse_iff _).mpr hop⟩
  · exact absurd (ISDU.pauseIR2_of_nextState h).1 hout

theorem released_at_end {i : Inputs} {c : Core} (h : Paused c) (hend : ¬Paused (step i c)) :
    c.slc.isdu = .pauseIR2 ∧ i.cont = false := by
  have hcont : i.cont = false := by
    by_contra hheld
    exact hend (.inr (Pause.press i h (Bool.eq_true_of_not_eq_false hheld)))
  refine ⟨h.resolve_left fun hfirst => hend (.inl ?_), hcont⟩
  obtain ⟨⟨isdu, d, hex⟩, ⟨mem, latch, q⟩⟩ := c
  obtain rfl : isdu = .pauseIR1 := hfirst
  rw [step_pauseIR1, hcont]
  rfl

theorem led_step (i : Inputs) (c : Core) :
    (step i c).slc.dp.led = if c.slc.isdu = .pauseIR1 then (step i c).slc.dp.ir.extractLsb' 0 10 else 0 := by
  obtain ⟨⟨isdu, d, hex⟩, ⟨mem, latch, q⟩⟩ := c
  by_cases h : isdu = .pauseIR1
  · obtain rfl := h
    rw [step_pauseIR1]
    rfl
  · have hld := ISDU.ldLED_control isdu (d.ir.getLsbD 5) (d.ir.getLsbD 11)
    rw [decide_eq_false h] at hld
    rw [if_neg h]
    simp only [step, Slc3.step, Slc3.State.control, Datapath.step, hld, Bool.false_eq_true, if_false]

section Run

variable {y : Nat → Inputs} {c : Core}

/-- A pause ends only on an edge of Continue. Nothing but a press can take the
controller into PauseIR2, and from there a release takes it on. -/
theorem leaves_falls (hreset : c.slc.isdu = .halted) {n : Nat} (h : Leaves y c n) : Falls y n := by
  obtain ⟨hpaused, hend⟩ := h
  obtain ⟨hsecond, hcont⟩ := released_at_end hpaused hend
  cases n with
  | zero => exact ISDU.State.noConfusion (hreset.symm.trans hsecond)
  | succ n => exact ⟨(ISDU.pauseIR2_of_nextState hsecond).2, hcont⟩

theorem count_leaves_le (hreset : c.slc.isdu = .halted) (n : Nat) :
    Nat.count (Leaves y c) n ≤ Nat.count (Falls y) n :=
  Nat.count_mono_left fun _ _ => leaves_falls hreset

theorem arch_pause {m n : Nat} (hm : (run step y c m).slc.isdu = .pauseIR1) (hmn : m ≤ n)
    (hbefore : ∀ k, m < k → k < n → ¬AtFetch (run step y c k)) :
    arch (run step y c n) = arch (run step y c m) := by
  obtain ⟨d, rfl⟩ := Nat.exists_eq_add_of_le hmn
  rw [run_add]
  refine Pause.arch_before _ (.inl hm) (fun k hk hlt => ?_) d le_rfl
  rw [← run_add]
  exact hbefore (m + k) (Nat.lt_add_of_pos_right hk) (Nat.add_lt_add_left hlt m)

end Run

/-- A pause is that of a PSE. From a reset on the processor has left no more
pauses than Continue has had falling edges, so a press of any length ends at most
one. In a pause the processor stands still, and LED shows IR[9:0] after every
cycle of PauseIR1 and after no other. -/
theorem pause_handshake (y : Nat → Inputs) (c : Core) (hreset : c.slc.isdu = .halted) :
    (∀ n, ¬Paused (run step y c n) → Paused (run step y c (n + 1)) →
      (run step y c n).slc.isdu = .s32 ∧ Isa.decode (run step y c n).slc.dp.ir = .pse) ∧
    (∀ n, Nat.count (Leaves y c) n ≤ Nat.count (Falls y) n) ∧
    (∀ a b e, Press y a b e → ∀ n, a ≤ n → n < e → Leaves y c n → n = b) ∧
    (∀ m n, (run step y c m).slc.isdu = .pauseIR1 → m ≤ n →
      (∀ k, m < k → k < n → ¬AtFetch (run step y c k)) →
        arch (run step y c n) = arch (run step y c m)) ∧
    (∀ n, (run step y c (n + 1)).slc.dp.led =
      if (run step y c n).slc.isdu = .pauseIR1 then
        (run step y c (n + 1)).slc.dp.ir.extractLsb' 0 10
      else 0) := by
  refine ⟨?_, count_leaves_le hreset, ?_, ?_, ?_⟩
  · intro n hout hin
    exact entered_by_pse hout hin
  · intro a b e hpress n ha he hleaves
    exact hpress.falls_at ha he (leaves_falls hreset hleaves)
  · intro m n hm hmn hbefore
    exact arch_pause hm hmn hbefore
  · intro n
    exact led_step (y n) (run step y c n)

def pauses : Core :=
  ⟨⟨.halted, ⟨fun _ => 0, 0, 0, 0, 0, 0, false, 0⟩, 0⟩, ⟨fun _ => Assembler.opPSE 5, 0, 0⟩⟩

/-- Run is pressed, and Continue from before the first pause until well into it. -/
def longPress (n : Nat) : Inputs := ⟨0, true, decide (2 ≤ n ∧ n < 12), ⟨0, 0⟩, 0⟩

theorem pause_handshake_longPress :
    Leaves longPress pauses 12 ∧ Nat.count (Leaves longPress pauses) 40 ≤ 1 := by
  have hedges : Nat.count (Falls longPress) 40 = 1 := by decide
  refine ⟨by decide, ?_⟩
  rw [← hedges]
  exact (pause_handshake longPress pauses rfl).2.1 40

end ECE385.SLC3.Handshake
