import ECE385.Clocked.Presses
import Mathlib.Data.BitVec

namespace ECE385.NiosAccumulator.Main

open Clocked.Machine
open Clocked.Presses

/-- What one pass of the loop reads: the button before the addition and after it,
0 while it is pressed, and the switches. -/
structure Reads where
  acc : BitVec 1
  sw : BitVec 10
  accAgain : BitVec 1

structure State where
  led : BitVec 8
  pressfinish : Bool

/-- The inner loop. -/
def reduced (newNum : Nat) : Nat :=
  if newNum > 255 then reduced (newNum - 256) else newNum
termination_by newNum
decreasing_by omega

def State.pass (r : Reads) (s : State) : State :=
  let s :=
    if r.acc = 0 ∧ s.pressfinish = false then
      { led := BitVec.ofNat 8 (reduced (s.led.toNat + r.sw.toNat)), pressfinish := true }
    else s
  if r.accAgain = 1 then { s with pressfinish := false } else s

/-- After the LEDs have been cleared. -/
def start (led : BitVec 8) : State := ⟨led &&& 0, false⟩

theorem reduced_eq (n : Nat) : reduced n = n % 256 := by
  fun_induction reduced n with
  | case1 n hbig ih => rw [ih]; omega
  | case2 n hsmall => omega

section Loop

variable (r : Nat → Reads)

/-- The levels of the button in the order in which they are read, two in a pass. -/
def pressed (n : Nat) : Bool :=
  if n % 2 = 0 then decide ((r (n / 2)).acc = 0) else decide ((r (n / 2)).accAgain = 0)

def addend (n : Nat) : Nat := (r n).sw.toNat

theorem pressed_first (n : Nat) : pressed r (2 * n) = decide ((r n).acc = 0) := by
  rw [pressed, if_pos (by omega), Nat.mul_div_cancel_left n (by decide)]

theorem pressed_second (n : Nat) : pressed r (2 * n + 1) = decide ((r n).accAgain = 0) := by
  rw [pressed, if_neg (by omega), show (2 * n + 1) / 2 = n by omega]

theorem eq_one_iff (b : BitVec 1) : b = 1 ↔ ¬b = 0 := by
  revert b
  decide

def counted (s : State) (n : Nat) : Bool := pressed r (2 * n) && !s.pressfinish

theorem pass_led (s : State) (n : Nat) : (s.pass (r n)).led.toNat =
    if counted r s n then (s.led.toNat + addend r n) % 256 else s.led.toNat := by
  have hled : (s.pass (r n)).led =
      if (r n).acc = 0 ∧ s.pressfinish = false then BitVec.ofNat 8 (reduced (s.led.toNat + (r n).sw.toNat))
      else s.led := by
    rw [State.pass]
    split <;> split <;> rfl
  have hcounted : counted r s n = true ↔ (r n).acc = 0 ∧ s.pressfinish = false := by
    rw [counted, pressed_first, Bool.and_eq_true, decide_eq_true_iff, Bool.not_eq_true']
  rw [hled, if_congr hcounted rfl rfl]
  split
  · rw [reduced_eq, BitVec.toNat_ofNat, Nat.mod_mod, addend]
  · rfl

theorem pass_pressfinish (s : State) (n : Nat) :
    (s.pass (r n)).pressfinish = (pressed r (2 * n + 1) && (pressed r (2 * n) || s.pressfinish)) := by
  have hpass : (s.pass (r n)).pressfinish =
      if (r n).accAgain = 1 then false
      else if (r n).acc = 0 ∧ s.pressfinish = false then true else s.pressfinish := by
    rw [State.pass]
    split <;> split <;> rfl
  rw [hpass, pressed_first, pressed_second, if_congr (eq_one_iff (r n).accAgain) rfl rfl, ite_not]
  by_cases hagain : (r n).accAgain = 0
  · rw [if_pos hagain, decide_eq_true hagain, Bool.true_and]
    by_cases hacc : (r n).acc = 0 <;> cases s.pressfinish <;> simp [hacc]
  · rw [if_neg hagain, decide_eq_false hagain, Bool.false_and]

end Loop

section Run

variable {r : Nat → Reads} (hheld : ∀ n, pressed r (n + 1) ≠ pressed r n → pressed r (n + 2) = pressed r (n + 1))
  (led : BitVec 8)

include hheld

/-- A press is finished with when both reads of a pass have seen it. -/
theorem run_pressfinish (n : Nat) : (run State.pass r (start led) (n + 1)).pressfinish =
    (pressed r (2 * n + 1) && pressed r (2 * n)) := by
  induction n with
  | zero =>
      rw [run_succ, pass_pressfinish]
      simp [start]
  | succ n ih =>
      have hhold := hheld (2 * n + 1)
      rw [run_succ, pass_pressfinish, ih, show 2 * (n + 1) = 2 * n + 1 + 1 from rfl]
      rw [show 2 * n + 1 + 2 = 2 * n + 1 + 1 + 1 from rfl] at hhold
      cases hnow : pressed r (2 * n + 1 + 1) with
      | true => rw [Bool.true_or]
      | false =>
          rw [hnow] at hhold
          cases hlast : pressed r (2 * n + 1) with
          | false => rfl
          | true =>
              rw [hhold (by rw [hlast]; exact Bool.false_ne_true)]
              rfl

theorem counted_run (n : Nat) : counted r (run State.pass r (start led) (n + 1)) (n + 1) =
    (rises (pressed r) (2 * n + 1) || rises (pressed r) (2 * n + 2)) := by
  have hhold := hheld (2 * n)
  rw [counted, run_pressfinish hheld, show 2 * (n + 1) = 2 * n + 2 from rfl]
  show _ = ((pressed r (2 * n + 1) && !pressed r (2 * n)) || (pressed r (2 * n + 2) && !pressed r (2 * n + 1)))
  cases hlast : pressed r (2 * n + 1) with
  | false => rw [Bool.false_and, Bool.false_and, Bool.not_false, Bool.false_or]
  | true =>
      rw [hlast] at hhold
      cases hfirst : pressed r (2 * n) with
      | false =>
          rw [hhold (by rw [hfirst]; exact Bool.noConfusion)]
          rfl
      | true => cases pressed r (2 * n + 2) <;> rfl

/-- The LEDs show the sum, modulo 256, of what the switches were in the pass that saw
each press. -/
theorem leds_accumulate (n : Nat) : (run State.pass r (start led) n).led.toNat =
    total (rises (pressed r)) (fun k => addend r ((k + 1) / 2)) (2 * n - 1) % 256 := by
  have hstart : (start led).led = 0 := BitVec.and_zero
  induction n with
  | zero =>
      rw [run_zero, hstart]
      rfl
  | succ n ih =>
      rw [run_succ, pass_led, ih, show 2 * (n + 1) - 1 = 2 * n + 1 by omega]
      cases n with
      | zero =>
          have hcounted : counted r (start led) 0 = rises (pressed r) 0 := Bool.and_true _
          rw [run_zero, hcounted, total_succ]
          split
          · exact Nat.mod_add_mod ..
          · rfl
      | succ n =>
          rw [counted_run hheld, show 2 * (n + 1) - 1 = 2 * n + 1 by omega,
            show 2 * (n + 1) + 1 = 2 * n + 1 + 1 + 1 by omega, total_succ _ _ (2 * n + 1 + 1),
            total_succ _ _ (2 * n + 1), show (2 * n + 1 + 1) / 2 = n + 1 by omega,
            show (2 * n + 1 + 1 + 1) / 2 = n + 1 by omega]
          have hapart : rises (pressed r) (2 * n + 1) = true → rises (pressed r) (2 * n + 1 + 1) = false := by
            intro h
            have hpressed : pressed r (2 * n + 1) = true := (Bool.and_eq_true_iff.mp h).1
            show (pressed r (2 * n + 1 + 1) && !pressed r (2 * n + 1)) = false
            rw [hpressed, Bool.not_true, Bool.and_false]
          cases hone : rises (pressed r) (2 * n + 1) with
          | true =>
              rw [hapart hone, Bool.true_or, if_pos rfl, if_pos rfl, if_neg Bool.false_ne_true]
              exact Nat.mod_add_mod ..
          | false =>
              rw [Bool.false_or, if_neg Bool.false_ne_true, Nat.add_zero]
              cases rises (pressed r) (2 * n + 1 + 1) with
              | true => exact Nat.mod_add_mod ..
              | false => rfl

end Run

/-- Two presses of three samples each, with switches at 200. -/
def presses (n : Nat) : Reads :=
  match n with
  | 0 => ⟨1, 0, 1⟩
  | 1 => ⟨1, 0, 0⟩
  | 2 => ⟨0, 200, 0⟩
  | 3 => ⟨1, 0, 1⟩
  | 4 => ⟨0, 200, 0⟩
  | 5 => ⟨0, 0, 1⟩
  | _ => ⟨1, 0, 1⟩

theorem leds_accumulate_presses : (run State.pass presses (start 0xff) 6).led.toNat = 144 := by
  have hheld : ∀ n, pressed presses (n + 1) ≠ pressed presses n →
      pressed presses (n + 2) = pressed presses (n + 1) := by
    intro n
    by_cases hn : n < 12
    · revert n
      decide
    · have hlate (m : Nat) (hm : 12 ≤ m) : pressed presses m = false := by
        obtain ⟨i, hi⟩ : ∃ i, m / 2 = i + 6 := ⟨m / 2 - 6, by omega⟩
        rw [pressed, hi]
        exact ite_self _
      rw [hlate (n + 1) (by omega), hlate n (by omega), hlate (n + 2) (by omega)]
      exact fun h => absurd rfl h
  rw [leds_accumulate hheld]
  decide

end ECE385.NiosAccumulator.Main
