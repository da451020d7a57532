import Mathlib.Tactic.LinearCombination
import Mathlib.Tactic.Ring
import ECE385.Multiplier.Circuit

namespace ECE385.Multiplier.Product

open Adder (signed signed_msb sign_bit rippleAdder9_value)
open Arithmetic.TwosComplement (getLsbD_eq_mod toInt_append toNat_append)
open Circuit
open Clocked.Machine (run_add run_follows run_rests run_succ)
open Control (schedule)

theorem toInt_ab (r : Registers) : r.ab.toInt = 256 * r.a.toInt + r.b.toNat := toInt_append _ _ (by decide)

theorem m_value (r : Registers) : (r.m.toNat : Int) = r.ab.toInt % 2 := by
  rw [toInt_ab, Registers.m, getLsbD_eq_mod]
  omega

/-- The multiplicand as the `k`-th addition takes it. -/
def multiplicand (sw : BitVec 8) (k : Nat) : Int := if k = 7 then -sw.toInt else sw.toInt

section Edges

variable (s : State)

theorem datapath_idle (h : s.control = .s ∨ s.control = .a ∧ s.resetLoadClearSH = false) :
    s.datapath = s.registers := by
  rcases h with h | ⟨h, hclear⟩
  · rw [State.datapath, State.outputs, h]
    rfl
  · rw [State.datapath, State.outputs, h, hclear]
    rfl

theorem datapath_clearing (h : s.control = .b) : s.datapath = ⟨false, 0, s.registers.b⟩ := by
  rw [State.datapath, State.outputs, h]
  rfl

theorem datapath_adding {k : Nat} (hk : k < 8) (h : s.control = schedule (2 * k + 2)) :
    ∃ x a, s.datapath = ⟨x, a, s.registers.b⟩ ∧
      signed x a = s.registers.a.toInt + multiplicand s.swS k * s.registers.m.toNat := by
  have houtputs := Control.adding_outputs s.resetLoadClearSH s.registers.m hk
  rw [← h] at houtputs
  refine ⟨_, _, ?_, rippleAdder9_value s.registers.a s.swS s.registers.m (decide (k = 7)) |>.trans ?_⟩
  · rw [State.datapath, State.outputs, houtputs]
    rfl
  · rw [multiplicand]
    simp only [decide_eq_true_iff]

theorem datapath_shifting {k : Nat} (hk : k < 8) (h : s.control = schedule (2 * k + 3)) :
    s.datapath = ⟨false, BitVec.ofBool s.registers.x ++ s.registers.a.extractLsb' 1 7,
      BitVec.ofBool (s.registers.a.getLsbD 0) ++ s.registers.b.extractLsb' 1 7⟩ := by
  have houtputs := Control.shifting_outputs s.resetLoadClearSH s.registers.m hk
  rw [← h] at houtputs
  rw [State.datapath, State.outputs, houtputs]
  rfl

end Edges

theorem toNat_upper (v : BitVec 8) : 2 * (v.extractLsb' 1 7).toNat + (v.getLsbD 0).toNat = v.toNat := by
  have hvalue : (v.extractLsb' 1 7).toNat = v.toNat / 2 := by
    rw [BitVec.extractLsb'_toNat, Nat.shiftRight_eq_div_pow]
    omega
  rw [hvalue, getLsbD_eq_mod]
  omega

/-- A shift halves the seventeen bits {X,A,B}; the lowest of them is lost. -/
theorem shift_value (x : Bool) (a b : BitVec 8) :
    2 * (256 * (BitVec.ofBool x ++ a.extractLsb' 1 7).toInt +
        (BitVec.ofBool (a.getLsbD 0) ++ b.extractLsb' 1 7).toNat) =
      256 * signed x a + b.toNat - (b.getLsbD 0).toNat := by
  have hx : (BitVec.ofBool x).toInt = -x.toNat := by
    cases x <;> rfl
  have ha := toNat_upper a
  have hb := toNat_upper b
  rw [toInt_append _ _ (by decide), toNat_append, hx, signed, BitVec.toNat_ofBool]
  omega

section Partial

variable (sw b : BitVec 8)

/-- What {A,B} holds before the `k`-th addition: the product with the bits of
`b` already used, and the bits still to come. -/
def partialProduct (k : Nat) : Int := sw.toInt * (b.toNat % 2 ^ k : Nat) * 2 ^ (8 - k) + (b.toNat / 2 ^ k : Nat)

theorem partialProduct_next {k : Nat} (hk : k < 7) :
    2 * partialProduct sw b (k + 1) =
      partialProduct sw b k + 256 * (sw.toInt * (b.getLsbD k).toNat) - (b.getLsbD k).toNat := by
  obtain ⟨d, hd⟩ := Nat.exists_eq_add_of_lt hk
  have hhigh : 8 - k = d + 1 + 1 := by omega
  have hlow : 8 - (k + 1) = d + 1 := by omega
  have hpow : (2 : Int) ^ k * 2 ^ (d + 1 + 1) = 256 := by
    rw [← Int.pow_add, ← hhigh, Nat.add_sub_cancel' (by omega)]
    rfl
  have hdiv : b.toNat / 2 ^ (k + 1) = b.toNat / 2 ^ k / 2 := by rw [Nat.pow_succ, Nat.div_div_eq_div_mul]
  rw [partialProduct, partialProduct, Nat.mod_pow_succ, hdiv, getLsbD_eq_mod, hhigh, hlow]
  have hhalf := Int.mul_ediv_add_emod (b.toNat / 2 ^ k : Nat) 2
  push_cast at hhalf ⊢
  linear_combination sw.toInt * ((b.toNat : Int) / 2 ^ k % 2) * hpow + hhalf

theorem partialProduct_last :
    2 * (sw.toInt * b.toInt) =
      partialProduct sw b 7 + 256 * (-sw.toInt * (b.getLsbD 7).toNat) - (b.getLsbD 7).toNat := by
  have hsplit : (b.toNat : Int) = 128 * (b.toNat / 128 : Nat) + (b.toNat % 128 : Nat) := by omega
  have hvalue : b.toInt = b.toNat - 256 * (b.toNat / 128 : Nat) := by rw [← signed_msb, signed, sign_bit]
  have hpartial : partialProduct sw b 7 = sw.toInt * (b.toNat % 128 : Nat) * 2 + (b.toNat / 128 : Nat) := rfl
  rw [hvalue, hpartial, sign_bit]
  linear_combination 2 * sw.toInt * hsplit

theorem partialProduct_mod {k : Nat} (hk : k < 8) : partialProduct sw b k % 2 = (b.getLsbD k).toNat := by
  obtain ⟨d, hd⟩ := Nat.exists_eq_add_of_lt hk
  have hshift : 8 - k = d + 1 := by omega
  rw [partialProduct, getLsbD_eq_mod, hshift, Int.pow_succ, ← Int.mul_assoc, Int.add_comm, Int.add_mul_emod_self_right]
  rfl

end Partial

/-- Run is seen in state A, and until the controller gets to S there is no reset
and the switches stand at `sw`. -/
structure Started (x : Nat → Inputs) (s : State) (sw : BitVec 8) : Prop where
  waiting : s.control = .a
  pressed : s.runSH = true
  clear : s.resetLoadClearSH = false
  held : ∀ n, (∀ m, m ≤ n → (run x s m).control ≠ .s) → (run x s n).resetSH = false ∧ (run x s n).swS = sw

section Run

variable {x : Nat → Inputs} {s : State} {sw : BitVec 8} (h : Started x s sw)

include h

theorem Started.control_at {n : Nat} (hn : n ≤ 18) : (run x s n).control = schedule n := by
  refine run_follows h.waiting (fun _ => Control.schedule_ne_s) (fun n hn hbusy hat => ?_) hn
  rw [run_succ, step, (h.held n hbusy).1, hat]
  cases n with
  | zero => exact congrArg (Control.nextState · .a) h.pressed
  | succ n => exact Control.nextState_schedule _ (Nat.succ_pos n) hn

theorem Started.swS_at {n : Nat} (hn : n < 18) : (run x s n).swS = sw :=
  (h.held n fun m hm => h.control_at (n := m) (by omega) ▸ Control.schedule_ne_s (by omega)).2

theorem Started.registers_cleared : (run x s 2).registers = ⟨false, 0, s.registers.b⟩ := by
  have hidle : (run x s 1).registers = s.registers := datapath_idle s (.inr ⟨h.waiting, h.clear⟩)
  have hclearing := datapath_clearing (run x s 1) (h.control_at (by decide))
  rw [hidle] at hclearing
  exact hclearing

theorem Started.round {k : Nat} (hk : k < 8) :
    2 * (run x s (2 * k + 4)).registers.ab.toInt =
      (run x s (2 * k + 2)).registers.ab.toInt +
        256 * (multiplicand sw k * (run x s (2 * k + 2)).registers.m.toNat) -
        (run x s (2 * k + 2)).registers.m.toNat := by
  obtain ⟨x', a', hadd, hvalue⟩ := datapath_adding (run x s (2 * k + 2)) hk (h.control_at (by omega))
  have hshift := datapath_shifting (run x s (2 * k + 3)) hk (h.control_at (by omega))
  have hnext : (run x s (2 * k + 3)).registers = ⟨x', a', (run x s (2 * k + 2)).registers.b⟩ := hadd
  have hlast : (run x s (2 * k + 4)).registers = (run x s (2 * k + 3)).datapath := rfl
  rw [h.swS_at (by omega)] at hvalue
  rw [hlast, hshift, hnext, toInt_ab, toInt_ab, shift_value, hvalue, Registers.m]
  ring

theorem Started.ab_before (k : Nat) (hk : k < 8) :
    (run x s (2 * k + 2)).registers.ab.toInt = partialProduct sw s.registers.b k := by
  induction k with
  | zero =>
      rw [h.registers_cleared, toInt_ab, partialProduct]
      simp [Nat.mod_one]
  | succ k ih =>
      have hab := ih (Nat.lt_of_succ_lt hk)
      have hround := h.round (Nat.lt_of_succ_lt hk)
      have hnext := partialProduct_next sw s.registers.b (Nat.lt_of_succ_lt_succ hk)
      have hsame : multiplicand sw k = sw.toInt := if_neg (by omega)
      rw [m_value, hab, partialProduct_mod _ _ (Nat.lt_of_succ_lt hk), hsame, ← hnext] at hround
      exact Int.eq_of_mul_eq_mul_left (by decide) hround

theorem Started.ab_after : (run x s 18).registers.ab.toInt = sw.toInt * s.registers.b.toInt := by
  have hround := h.round (k := 7) (by decide)
  have hlast := partialProduct_last sw s.registers.b
  have hnegative : multiplicand sw 7 = -sw.toInt := if_pos rfl
  rw [m_value, h.ab_before 7 (by decide), partialProduct_mod _ _ (by decide), hnegative, ← hlast] at hround
  exact Int.eq_of_mul_eq_mul_left (by decide) hround

end Run

/-- A new run or a reload begins in state A. -/
def Restarts (s : State) : Prop := s.control = .a ∧ (s.runSH = true ∨ s.resetLoadClearSH = true)

def Resting (s : State) : Prop := s.control = .s ∨ s.control = .a

theorem resting_step {i : Inputs} {s : State} (h : Resting s) (hstays : ¬Restarts s) :
    Resting (step i s) ∧ (step i s).registers = s.registers := by
  rcases h with h | h
  · refine ⟨?_, datapath_idle s (.inl h)⟩
    rw [Resting, step, h]
    cases s.resetSH <;> cases s.runSH <;> simp [Control.step, Control.nextState]
  · have hrun : s.runSH = false := Bool.eq_false_of_not_eq_true fun hrun => hstays ⟨h, .inl hrun⟩
    have hclear : s.resetLoadClearSH = false := Bool.eq_false_of_not_eq_true fun hclear => hstays ⟨h, .inr hclear⟩
    refine ⟨.inr ?_, datapath_idle s (.inr ⟨h, hclear⟩)⟩
    rw [step, h, hrun]
    exact ite_self _

theorem Started.registers_rest {x : Nat → Inputs} {s : State} {sw : BitVec 8} (h : Started x s sw) {n : Nat}
    (hn : 18 ≤ n) (hstays : ∀ m, 18 ≤ m → m < n → ¬Restarts (run x s m)) :
    (run x s n).registers = (run x s 18).registers := by
  have hdone : Resting (run x s 18) := .inl (h.control_at le_rfl)
  exact (run_rests (fun _ _ => resting_step) hdone hn hstays).2

/-- The `i`-th of `k` runs starts at time `t i` with the switches at `sw i`, and
nothing else starts or reloads between two of them. -/
structure Runs (x : Nat → Inputs) (s : State) (t : Nat → Nat) (sw : Nat → BitVec 8) (k : Nat) : Prop where
  started : ∀ i, i < k → Started (fun n => x (t i + n)) (run x s (t i)) (sw i)
  later : ∀ i, i + 1 < k → t i + 18 ≤ t (i + 1)
  between : ∀ i, i + 1 < k → ∀ m, t i + 18 ≤ m → m < t (i + 1) → ¬Restarts (run x s m)

section Runs

variable {x : Nat → Inputs} {s : State} {t : Nat → Nat} {sw : Nat → BitVec 8} {k : Nat} (h : Runs x s t sw k)

include h

theorem Runs.ab_after {i : Nat} (hi : i < k) :
    (run x s (t i + 18)).registers.ab.toInt = (sw i).toInt * (run x s (t i)).registers.b.toInt := by
  rw [run, run_add]
  exact (h.started i hi).ab_after

theorem Runs.registers_next {i : Nat} (hi : i + 1 < k) :
    (run x s (t (i + 1))).registers = (run x s (t i + 18)).registers := by
  have hdone : Resting (run x s (t i + 18)) := by
    rw [run, run_add]
    exact .inl ((h.started i (Nat.lt_of_succ_lt hi)).control_at le_rfl)
  exact (run_rests (fun _ _ => resting_step) hdone (h.later i hi) (h.between i hi)).2

end Runs

theorem setWidth_ab (r : Registers) : r.ab.setWidth 8 = r.b := by
  rw [Registers.ab, BitVec.setWidth_append, dif_pos le_rfl, BitVec.setWidth_eq]

/-- The multiplier enters S 18 cycles after it sees Run, with the signed product
in {A,B}, and keeps it there until the next run or reload. So every run of a
sequence multiplies the low byte of the result before it. -/
theorem multiplier_product :
    (∀ (x : Nat → Inputs) (s : State) (sw : BitVec 8), Started x s sw →
      (run x s 18).control = .s ∧ (∀ n, n < 18 → (run x s n).control ≠ .s) ∧
        ∀ n, 18 ≤ n → (∀ m, 18 ≤ m → m < n → ¬Restarts (run x s m)) →
          (run x s n).registers.ab.toInt = sw.toInt * s.registers.b.toInt) ∧
    (∀ (x : Nat → Inputs) (s : State) (t : Nat → Nat) (sw : Nat → BitVec 8) (k : Nat), Runs x s t sw k →
      (0 < k → (run x s (t 0 + 18)).registers.ab.toInt = (sw 0).toInt * (run x s (t 0)).registers.b.toInt) ∧
        ∀ i, i + 1 < k → (run x s (t (i + 1) + 18)).registers.ab.toInt =
          (sw (i + 1)).toInt * ((run x s (t i + 18)).registers.ab.setWidth 8).toInt) := by
  refine ⟨fun x s sw h => ⟨h.control_at le_rfl, fun n hn => ?_, fun n hn hstays => ?_⟩,
    fun x s t sw k h => ⟨h.ab_after, fun i hi => ?_⟩⟩
  · rw [h.control_at hn.le]
    exact Control.schedule_ne_s hn
  · rw [h.registers_rest hn hstays]
    exact h.ab_after
  · rw [h.ab_after hi, h.registers_next hi, setWidth_ab]

/-- Run is pressed in every 32nd cycle, with -127 on the switches. -/
def corner (n : Nat) : Inputs := ⟨true, decide (n % 32 ≠ 31), false, 0x81⟩

/-- Register B holds -128, and X and A something from before. -/
def leftover : State := ⟨false, true, false, 0x81, ⟨true, 0xa5, 0x80⟩, .a⟩

theorem runs_corner : Runs corner leftover (fun i => 32 * i) (fun _ => 0x81) 2 := by
  have hcontrol : ∀ i, i < 2 → (run corner leftover (32 * i)).control = .a ∧
      (run corner leftover (32 * i)).runSH = true ∧
      (run corner leftover (32 * i)).resetLoadClearSH = false := by decide +kernel
  have hrest : ∀ m, m < 32 → 18 ≤ m → ¬((run corner leftover m).control = .a ∧
      ((run corner leftover m).runSH = true ∨ (run corner leftover m).resetLoadClearSH = true)) := by
    decide +kernel
  have hheld (n : Nat) : (run corner leftover n).resetSH = false ∧ (run corner leftover n).swS = 0x81 := by
    cases n <;> exact ⟨rfl, rfl⟩
  refine ⟨fun i hi => ?_, fun i hi => by omega, fun i hi m hm hlt => ?_⟩
  · obtain ⟨hwaiting, hpressed, hclear⟩ := hcontrol i hi
    refine ⟨hwaiting, hpressed, hclear, fun n _ => ?_⟩
    rw [run, ← run_add]
    exact hheld (32 * i + n)
  · obtain rfl : i = 0 := by omega
    exact hrest m hlt hm

/-- The low byte of the product of -127 and -128 is -128 again. -/
theorem multiplier_product_corner :
    (run corner leftover 18).registers.ab.toInt = 16256 ∧ (run corner leftover 50).registers.ab.toInt = 16256 := by
  have hstarted := runs_corner.started 0 (by decide)
  have hfirst := (multiplier_product.1 _ _ _ hstarted).2.2 18 le_rfl fun m hm hlt => absurd hlt (by omega)
  have hnext := (multiplier_product.2 _ _ _ _ _ runs_corner).2 0 (by decide)
  have hsecond : (run corner leftover 18).registers.ab.setWidth 8 = 0x80#8 := by decide +kernel
  refine ⟨hfirst, hnext.trans ?_⟩
  rw [Nat.mul_zero, Nat.zero_add, hsecond]
  rfl

end ECE385.Multiplier.Product
