import ECE385.Adders.Interchange
import ECE385.Clocked.ByteLanes
import ECE385.Clocked.Presses

namespace ECE385.Adders.Accumulator

open Clocked.ByteLanes (toNat_field)
open Clocked.Machine
open Clocked.Presses
open Interchange

/-- The states A, B and C of the control unit. -/
inductive Stage
  | a | b | c
  deriving DecidableEq

def Stage.next (run : Bool) : Stage → Stage
  | .a => if run then .b else .a
  | .b => .c
  | .c => if run then .c else .a

def Stage.runO : Stage → Bool
  | .a => false
  | .b => true
  | .c => false

def router (r : Bool) (a : BitVec 16) (b : BitVec 17) : BitVec 17 := if r then b else 0#1 ++ a

/-- The two buttons are 0 while they are pressed. -/
structure Inputs where
  resetClear : Bool
  runAccumulate : Bool
  sw : BitVec 10

structure State where
  stage : Stage
  out : BitVec 17

def extendedSW (sw : BitVec 10) : BitVec 17 := 0#7 ++ sw

def sum (sw : BitVec 10) (out : BitVec 17) : BitVec 17 :=
  let (s, cout) := selectAdder ((extendedSW sw).extractLsb' 0 16) (out.extractLsb' 0 16) false
  BitVec.ofBool cout ++ s

def State.clk (i : Inputs) (s : State) : State :=
  let reset := !i.resetClear
  let run := !i.runAccumulate
  let load := s.stage.runO
  let d := router load ((extendedSW i.sw).extractLsb' 0 16) (sum i.sw s.out)
  { stage := if reset then .a else s.stage.next run
    out := if reset then 0 else if load then d else s.out }

def hexDriver (in0 : BitVec 4) : BitVec 7 :=
  match in0 with
  | 0b0000 => 0b1000000
  | 0b0001 => 0b1111001
  | 0b0010 => 0b0100100
  | 0b0011 => 0b0110000
  | 0b0100 => 0b0011001
  | 0b0101 => 0b0010010
  | 0b0110 => 0b0000010
  | 0b0111 => 0b1111000
  | 0b1000 => 0b0000000
  | 0b1001 => 0b0010000
  | 0b1010 => 0b0001000
  | 0b1011 => 0b0000011
  | 0b1100 => 0b1000110
  | 0b1101 => 0b0100001
  | 0b1110 => 0b0000110
  | _ => 0b0001110

/-- HEX2 to HEX5, the right one first. -/
def State.hex (s : State) (digit : Fin 4) : BitVec 7 := hexDriver (s.out.extractLsb' (4 * digit) 4)

def State.led (i : Inputs) (s : State) : BitVec 10 :=
  s.out.extractLsb' 16 1 ++ 0#7 ++ i.sw.extractLsb' 8 2

/-- A press counts when the button goes down, but not two edges after a press that
counted: the control unit does not look at the button in between. -/
def counts (pressed : Nat → Bool) : Nat → Bool
  | 0 => pressed 0
  | 1 => pressed 1 && !pressed 0
  | n + 2 => pressed (n + 2) && !pressed (n + 1) && !counts pressed n

def held (pressed : Nat → Bool) (v : Nat → Nat) : Nat → Nat
  | 0 => 0
  | n + 1 => if counts pressed n then held pressed v n % 65536 + v n else held pressed v n

section Sum

variable (sw : BitVec 10) (out : BitVec 17)

theorem toNat_extendedSW : ((extendedSW sw).extractLsb' 0 16).toNat = sw.toNat := by
  have hsw := sw.isLt
  rw [extendedSW, toNat_field, Arithmetic.TwosComplement.toNat_append]
  simp only [BitVec.toNat_zero]
  omega

theorem toNat_sum : (sum sw out).toNat = out.toNat % 65536 + sw.toNat := by
  have hadds := Arithmetic.CarryGroups.adds_iff_concat.mp
    (selectAdder_adds ((extendedSW sw).extractLsb' 0 16) (out.extractLsb' 0 16) false)
  have hlow : (out.extractLsb' 0 16).toNat = out.toNat % 65536 := by
    rw [toNat_field, Nat.pow_zero, Nat.div_one]
    rfl
  rw [toNat_extendedSW, hlow] at hadds
  rw [Nat.add_comm]
  exact hadds

end Sum

section Stage

variable (pressed : Nat → Bool)

def stage (n : Nat) : Stage := run Stage.next pressed .a n

theorem counts_of_rises (h : ∀ n, rises pressed n = true → rises pressed (n + 2) = false) (n : Nat) :
    counts pressed n = rises pressed n := by
  induction n using Nat.strong_induction_on with
  | h n ih =>
      match n with
      | 0 => rfl
      | 1 => rfl
      | n + 2 =>
          have hrise : rises pressed (n + 2) = (pressed (n + 2) && !pressed (n + 1)) := rfl
          have hearlier := h n
          rw [counts, ih n (by omega), ← hrise]
          cases hn : rises pressed n with
          | false => exact Bool.and_true _
          | true => rw [hearlier hn]; rfl

/-- The control unit counts a press when it sees it in state A. -/
theorem counts_eq (n : Nat) : counts pressed n = (decide (stage pressed n = .a) && pressed n) := by
  have htwo : ∀ (s : Stage) (p q r : Bool),
      (decide ((s.next p).next q = .a) && r) = (r && !q && !(decide (s = .a) && p)) := by
    intro s p q r
    cases s <;> revert p q r <;> decide
  induction n using Nat.strong_induction_on with
  | h n ih =>
      match n with
      | 0 => rfl
      | 1 =>
          show (pressed 1 && !pressed 0) = (decide (Stage.a.next (pressed 0) = .a) && pressed 1)
          cases pressed 0 <;> cases pressed 1 <;> rfl
      | n + 2 =>
          rw [counts, ih n (by omega)]
          exact (htwo (stage pressed n) (pressed n) (pressed (n + 1)) (pressed (n + 2))).symm

theorem runO_stage (n : Nat) : (stage pressed (n + 1)).runO = counts pressed n := by
  have hone : ∀ (s : Stage) (p : Bool), (s.next p).runO = (decide (s = .a) && p) := by
    intro s p
    cases s <;> revert p <;> decide
  rw [counts_eq]
  exact hone (stage pressed n) (pressed n)

end Stage

section Run

variable (i : Nat → Inputs)

def pressed (n : Nat) : Bool := !(i n).runAccumulate

def addend (n : Nat) : Nat := (i (n + 1)).sw.toNat

def cleared : State := ⟨.a, 0⟩

variable {i} {n : Nat} (hclear : ∀ k, k < n → (i k).resetClear = true)

include hclear

theorem run_stage : (run State.clk i cleared n).stage = stage (pressed i) n := by
  induction n with
  | zero => rfl
  | succ n ih =>
      have hreset := hclear n (Nat.lt_succ_self n)
      rw [run_succ, stage, run_succ, ← stage, ← ih fun k hk => hclear k (Nat.lt_succ_of_lt hk), State.clk, hreset]
      rfl

theorem run_out (hn : n ≠ 0) : (run State.clk i cleared n).out.toNat = held (pressed i) (addend i) (n - 1) := by
  obtain ⟨n, rfl⟩ := Nat.exists_eq_succ_of_ne_zero hn
  rw [Nat.succ_sub_one]
  induction n with
  | zero =>
      have hreset := hclear 0 Nat.one_pos
      rw [run_succ, State.clk, hreset]
      rfl
  | succ n ih =>
      have hreset := hclear (n + 1) (Nat.lt_succ_self _)
      have hbefore := ih (fun k hk => hclear k (Nat.lt_succ_of_lt hk)) (Nat.succ_ne_zero n)
      have hstage := run_stage (n := n + 1) fun k hk => hclear k (Nat.lt_succ_of_lt hk)
      rw [run_succ, State.clk, hreset, hstage, runO_stage, held, ← hbefore]
      cases counts (pressed i) n with
      | false => rfl
      | true => exact toNat_sum ..

end Run

section Held

variable {p : Nat → Bool} {v : Nat → Nat}

theorem held_low (n : Nat) : held p v n % 65536 = total (counts p) v n % 65536 := by
  refine @adds_total _ _ (fun n => held p v n % 65536) _ rfl (fun n => ?_) n
  rw [held]
  split <;> rfl

/-- The top bit is the carry of the last addition. -/
theorem held_high (n : Nat) : 65536 ≤ held p v n ↔ ∃ k, k < n ∧ counts p k = true ∧
    (∀ j, k < j → j < n → counts p j = false) ∧ 65536 ≤ total (counts p) v k % 65536 + v k := by
  induction n with
  | zero =>
      constructor
      · intro h
        exact absurd h (Nat.not_succ_le_zero 65535)
      · rintro ⟨k, hk, -⟩
        exact absurd hk (Nat.not_lt_zero k)
  | succ n ih =>
      rw [held]
      cases hn : counts p n with
      | false =>
          rw [if_neg Bool.false_ne_true, ih]
          constructor
          · rintro ⟨k, hk, hcount, hlast, hcarry⟩
            refine ⟨k, Nat.lt_succ_of_lt hk, hcount, fun j hj hlt => ?_, hcarry⟩
            rcases Nat.eq_or_lt_of_le (Nat.le_of_lt_succ hlt) with rfl | hlt
            · exact hn
            · exact hlast j hj hlt
          · rintro ⟨k, hk, hcount, hlast, hcarry⟩
            rcases Nat.eq_or_lt_of_le (Nat.le_of_lt_succ hk) with rfl | hlt
            · exact Bool.noConfusion (hn.symm.trans hcount)
            · exact ⟨k, hlt, hcount, fun j hj hlt => hlast j hj (Nat.lt_succ_of_lt hlt), hcarry⟩
      | true =>
          rw [if_pos rfl, held_low]
          constructor
          · intro hcarry
            exact ⟨n, Nat.lt_succ_self n, hn, fun j hj hlt => by omega, hcarry⟩
          · rintro ⟨k, hk, -, hlast, hcarry⟩
            rcases Nat.eq_or_lt_of_le (Nat.le_of_lt_succ hk) with rfl | hlt
            · exact hcarry
            · exact Bool.noConfusion ((hlast n hlt (Nat.lt_succ_self n)).symm.trans hn)

end Held

section Board

variable (x : Nat → Inputs) (s : State) (m n : Nat) (hreset : (x m).resetClear = false)
  (hclear : ∀ k, k < n → (x (m + 1 + k)).resetClear = true)

def since : Nat → Inputs := fun k => x (m + 1 + k)

include hreset in
theorem run_since : run State.clk x s (m + 1 + n) = run State.clk (since x m) cleared n := by
  have hstart : run State.clk x s (m + 1) = cleared := by
    rw [run_succ, State.clk, hreset]
    rfl
  rw [run_add, hstart]
  rfl

theorem digit_eq {out : BitVec 17} {total : Nat} (h : out.toNat % 65536 = total % 65536) (d : Fin 4) :
    out.extractLsb' (4 * d) 4 = BitVec.ofNat 4 (total / 16 ^ (d : Nat)) := by
  apply BitVec.eq_of_toNat_eq
  rw [toNat_field, BitVec.toNat_ofNat, Nat.pow_mul]
  have hd := d.isLt
  generalize (d : Nat) = d at hd
  interval_cases d <;> simp only [Nat.reducePow] <;> omega

include hreset hclear in
/-- Since the last reset the register adds up the switches, modulo 2 ^ 16: one
addition for every press that counts, with the switches at the edge after it. -/
theorem register_accumulates :
    (run State.clk x s (m + 1 + n)).out.extractLsb' 0 16 =
      BitVec.ofNat 16 (total (counts (pressed (since x m))) (addend (since x m)) (n - 1)) ∧
    (∀ d, (run State.clk x s (m + 1 + n)).hex d =
      hexDriver (BitVec.ofNat 4 (total (counts (pressed (since x m))) (addend (since x m)) (n - 1) / 16 ^ (d : Nat)))) ∧
    (∀ i, (State.led i (run State.clk x s (m + 1 + n))).getLsbD 9 = true ↔
      ∃ k, k < n - 1 ∧ counts (pressed (since x m)) k = true ∧
        (∀ j, k < j → j < n - 1 → counts (pressed (since x m)) j = false) ∧
        65536 ≤ total (counts (pressed (since x m))) (addend (since x m)) k % 65536 + addend (since x m) k) ∧
    ((∀ k, rises (pressed (since x m)) k = true → rises (pressed (since x m)) (k + 2) = false) →
      counts (pressed (since x m)) = rises (pressed (since x m))) := by
  have hout : (run State.clk x s (m + 1 + n)).out.toNat =
      held (pressed (since x m)) (addend (since x m)) (n - 1) := by
    rw [run_since x s m n hreset]
    rcases Nat.eq_zero_or_pos n with rfl | hpos
    · rfl
    · exact run_out hclear (Nat.pos_iff_ne_zero.mp hpos)
  refine ⟨?_, fun d => ?_, fun i => ?_, fun h => funext (counts_of_rises _ h)⟩
  · apply BitVec.eq_of_toNat_eq
    rw [toNat_field, BitVec.toNat_ofNat, Nat.pow_zero, Nat.div_one, hout]
    exact held_low _
  · rw [State.hex, digit_eq ((congrArg (· % 65536) hout).trans (held_low _))]
  · rw [← held_high, ← hout]
    have hlt := (run State.clk x s (m + 1 + n)).out.isLt
    have hbit : (State.led i (run State.clk x s (m + 1 + n))).getLsbD 9 =
        (run State.clk x s (m + 1 + n)).out.getLsbD 16 := by
      rw [State.led, BitVec.getLsbD_append, if_neg (by decide), BitVec.getLsbD_append, if_neg (by decide),
        BitVec.getLsbD_extractLsb']
      rfl
    rw [hbit, BitVec.getLsbD, Nat.testBit_eq_decide_div_mod_eq, decide_eq_true_iff]
    omega

end Board

/-- After the reset the button goes down at every third edge. -/
def tapping (n : Nat) : Inputs := ⟨decide (n ≠ 0), decide (n % 3 ≠ 1), 1023⟩

/-- The last of 65 presses carries. -/
theorem register_accumulates_tapping :
    (run State.clk tapping cleared 195).out.extractLsb' 0 16 = 959#16 ∧
    (run State.clk tapping cleared 195).hex 0 = hexDriver 0xf ∧
    (State.led (tapping 0) (run State.clk tapping cleared 195)).getLsbD 9 = true ∧
    counts (pressed (since tapping 0)) = rises (pressed (since tapping 0)) := by
  have hclear : ∀ k, k < 194 → (tapping (0 + 1 + k)).resetClear = true := by decide +kernel
  obtain ⟨hout, hhex, hled, hcounts⟩ := register_accumulates tapping cleared 0 194 rfl hclear
  have hpressed (k : Nat) : pressed (since tapping 0) k = decide (k % 3 = 0) := by
    show (!decide ((0 + 1 + k) % 3 ≠ 1)) = decide (k % 3 = 0)
    rw [Bool.eq_iff_iff, Bool.not_eq_true', decide_eq_false_iff_not, decide_eq_true_iff]
    omega
  refine ⟨hout.trans (by decide +kernel), (hhex 0).trans (by decide +kernel),
    (hled _).mpr ⟨192, by decide, by decide +kernel, fun j hj hlt => by omega, by decide +kernel⟩, hcounts fun k hk => ?_⟩
  have hdown : pressed (since tapping 0) k = true := by
    cases k with
    | zero => rfl
    | succ k => exact (Bool.and_eq_true_iff.mp hk).1
  have hlater : pressed (since tapping 0) (k + 2) = false := by
    rw [hpressed, decide_eq_true_iff] at hdown
    rw [hpressed, decide_eq_false_iff_not]
    omega
  show (pressed (since tapping 0) (k + 2) && _) = false
  rw [hlater, Bool.false_and]

end ECE385.Adders.Accumulator
