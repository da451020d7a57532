import Mathlib.Data.Nat.Count
import ECE385.Clocked.SerialRegister
import ECE385.SerialProcessor.Circuit

namespace ECE385.SerialProcessor.Operation

open Circuit
open Clocked.Machine (run_add run_follows run_rests run_succ)
open Clocked.SerialRegister (serial serial_word)
open Control (schedule)

/-- The word that F makes of A and B. -/
def fab (f : BitVec 3) (a b : BitVec 8) : BitVec 8 :=
  match f with
  | 0b000#3 => a &&& b
  | 0b001#3 => a ||| b
  | 0b010#3 => a ^^^ b
  | 0b011#3 => .allOnes 8
  | 0b100#3 => ~~~(a &&& b)
  | 0b101#3 => ~~~(a ||| b)
  | 0b110#3 => ~~~(a ^^^ b)
  | 0b111#3 => 0

/-- The parallel operation that one execution stands for. -/
def perform (f : BitVec 3) (r : BitVec 2) (v : Registers) : Registers :=
  match r with
  | 0b00#2 => v
  | 0b01#2 => ⟨v.a, fab f v.a v.b⟩
  | 0b10#2 => ⟨fab f v.a v.b, v.b⟩
  | 0b11#2 => ⟨v.b, v.a⟩

def routedBits (f : BitVec 3) (r : BitVec 2) (x y : Bool) : Routed :=
  router r (compute f x y).aOut (compute f x y).bOut (compute f x y).fAB

theorem getLsbD_fab (f : BitVec 3) (a b : BitVec 8) {i : Nat} (hi : i < 8) :
    (fab f a b).getLsbD i = (compute f (a.getLsbD i) (b.getLsbD i)).fAB := by
  unfold fab compute
  split <;> simp [hi, -BitVec.reduceAllOnes]

theorem getLsbD_perform (f : BitVec 3) (r : BitVec 2) (v : Registers) {i : Nat} (hi : i < 8) :
    (perform f r v).a.getLsbD i = (routedBits f r (v.a.getLsbD i) (v.b.getLsbD i)).aOut ∧
      (perform f r v).b.getLsbD i = (routedBits f r (v.a.getLsbD i) (v.b.getLsbD i)).bOut := by
  have hfab := getLsbD_fab f v.a v.b hi
  unfold perform routedBits router
  split
  · exact ⟨rfl, rfl⟩
  · exact ⟨rfl, hfab⟩
  · exact ⟨hfab, rfl⟩
  · exact ⟨rfl, rfl⟩

def pair (v : Registers) : BitVec 8 × BitVec 8 := (v.a, v.b)

theorem pair_inj {v v' : Registers} (h : pair v = pair v') : v = v' := by
  obtain ⟨a, b⟩ := v
  obtain ⟨a', b'⟩ := v'
  obtain ⟨rfl, rfl⟩ := Prod.mk.inj h
  rfl

/-- What A and B hold when the controller leaves state A. A load in that cycle
still counts. -/
def loaded (s : State) : Registers where
  a := if s.loadASH then s.dinS else s.registers.a
  b := if s.loadBSH then s.dinS else s.registers.b

section Edges

variable {s : State} (hlow : s.resetSH = false)

include hlow

theorem datapath_waiting (h : s.control = .a) : s.datapath = loaded s := by
  rw [State.datapath, State.outputs, h, hlow]
  rfl

theorem datapath_done (h : s.control = .j) : s.datapath = s.registers := by
  rw [State.datapath, State.outputs, h, hlow]
  rfl

theorem datapath_shifting {k : Nat} (hpos : 0 < k) (hk : k < 9) (h : s.control = schedule k) :
    pair s.datapath =
      serial (fun x y => (routedBits s.fS s.rS x y).aOut) (fun x y => (routedBits s.fS s.rS x y).bOut)
        (pair s.registers) := by
  have houtputs := Control.outputs_schedule s.loadASH s.loadBSH hpos hk
  rw [← h] at houtputs
  rw [State.datapath, State.outputs, houtputs, hlow]
  rfl

end Edges

/-- Execute is seen in state A, and until the controller gets to J there is no
reset and F and R stand at `f` and `r`. -/
structure Started (x : Nat → Inputs) (s : State) (f : BitVec 3) (r : BitVec 2) : Prop where
  waiting : s.control = .a
  pressed : s.executeSH = true
  held : ∀ n, (∀ m, m ≤ n → (run x s m).control ≠ .j) →
    (run x s n).resetSH = false ∧ (run x s n).fS = f ∧ (run x s n).rS = r

section Run

variable {x : Nat → Inputs} {s : State} {f : BitVec 3} {r : BitVec 2} (h : Started x s f r)

include h

theorem Started.control_at {n : Nat} (hn : n ≤ 9) : (run x s n).control = schedule n := by
  refine run_follows h.waiting (fun _ => Control.schedule_ne_j) (fun n hn hbusy hat => ?_) hn
  rw [run_succ, step, (h.held n hbusy).1, hat]
  cases n with
  | zero => exact congrArg (Control.nextState · .a) h.pressed
  | succ n => exact Control.nextState_schedule _ (Nat.succ_pos n) hn

theorem Started.held_at {n : Nat} (hn : n < 9) :
    (run x s n).resetSH = false ∧ (run x s n).fS = f ∧ (run x s n).rS = r :=
  h.held n fun m hm => h.control_at (n := m) (by omega) ▸ Control.schedule_ne_j (by omega)

theorem Started.pair_after (k : Nat) (hk : k ≤ 8) :
    pair (run x s (k + 1)).registers =
      (serial (fun x y => (routedBits f r x y).aOut) (fun x y => (routedBits f r x y).bOut))^[k]
        (pair (loaded s)) := by
  induction k with
  | zero => exact congrArg pair (datapath_waiting (h.held_at (n := 0) (by decide)).1 h.waiting)
  | succ k ih =>
      obtain ⟨hlow, hf, hr⟩ := h.held_at (Nat.lt_succ_of_le hk)
      have hshift := datapath_shifting hlow (Nat.succ_pos k) (Nat.lt_succ_of_le hk) (h.control_at (by omega))
      rw [hf, hr] at hshift
      rw [Function.iterate_succ_apply', ← ih (Nat.le_of_succ_le hk)]
      exact hshift

theorem Started.registers_after : (run x s 9).registers = perform f r (loaded s) := by
  apply pair_inj
  rw [h.pair_after 8 le_rfl]
  refine serial_word _ _ _ _ ?_ ?_
  · intro i hi
    exact (getLsbD_perform f r (loaded s) hi).1
  · intro i hi
    exact (getLsbD_perform f r (loaded s) hi).2

theorem Started.shiftEn_at {n : Nat} (hn : n < 9) : (run x s n).outputs.shiftEn = decide (0 < n) := by
  rw [State.outputs, h.control_at hn.le]
  cases n with
  | zero => rfl
  | succ n =>
      rw [Control.outputs_schedule _ _ (Nat.succ_pos n) hn]
      rfl

theorem Started.shifts : Nat.count (fun n => (run x s n).outputs.shiftEn = true) 9 = 8 := by
  rw [Nat.count_add' _ 8 1]
  have hwaiting : Nat.count (fun n => (run x s n).outputs.shiftEn = true) 1 = 0 := by
    rw [Nat.count_iff_forall_not]
    intro n hn
    rw [h.shiftEn_at (by omega), decide_eq_true_iff]
    exact Nat.not_lt_of_le (Nat.le_of_lt_succ hn)
  have hturn : Nat.count (fun n => (run x s (n + 1)).outputs.shiftEn = true) 8 = 8 := by
    rw [Nat.count_iff_forall]
    intro n hn
    rw [h.shiftEn_at (by omega)]
    rfl
  rw [hwaiting, hturn]

end Run

/-- A reset, or in state A a load or a new execution. -/
def Restarts (s : State) : Prop :=
  s.resetSH = true ∨ s.control = .a ∧ (s.executeSH = true ∨ s.loadASH = true ∨ s.loadBSH = true)

def Resting (s : State) : Prop := s.control = .j ∨ s.control = .a

theorem resting_step {i : Inputs} {s : State} (h : Resting s) (hstays : ¬Restarts s) :
    Resting (step i s) ∧ (step i s).registers = s.registers := by
  have hlow : s.resetSH = false := Bool.eq_false_of_not_eq_true fun hreset => hstays (.inl hreset)
  rcases h with h | h
  · refine ⟨?_, datapath_done hlow h⟩
    rw [Resting, step, h, hlow]
    cases s.executeSH with
    | true => exact .inl rfl
    | false => exact .inr rfl
  · have hquiet : ¬(s.executeSH = true ∨ s.loadASH = true ∨ s.loadBSH = true) := fun hq => hstays (.inr ⟨h, hq⟩)
    simp only [not_or, Bool.not_eq_true] at hquiet
    obtain ⟨hexecute, hloadA, hloadB⟩ := hquiet
    refine ⟨.inr ?_, (datapath_waiting hlow h).trans ?_⟩
    · rw [step, h, hlow, hexecute]
      rfl
    · rw [loaded, hloadA, hloadB]
      rfl

theorem Started.rest {x : Nat → Inputs} {s : State} {f : BitVec 3} {r : BitVec 2} (h : Started x s f r) {n : Nat}
    (hn : 9 ≤ n) (hstays : ∀ m, 9 ≤ m → m < n → ¬Restarts (run x s m)) :
    Resting (run x s n) ∧ (run x s n).registers = perform f r (loaded s) := by
  have hdone : Resting (run x s 9) := .inl (h.control_at le_rfl)
  obtain ⟨hresting, hkept⟩ := run_rests (fun _ _ => resting_step) hdone hn hstays
  exact ⟨hresting, hkept.trans h.registers_after⟩

/-- The `i`-th of `k` executions starts at time `t i` with F and R at `f i` and
`r i`. Between two of them nothing is loaded or reset. -/
structure Executions (x : Nat → Inputs) (s : State) (t : Nat → Nat) (f : Nat → BitVec 3) (r : Nat → BitVec 2)
    (k : Nat) : Prop where
  started : ∀ i, i < k → Started (fun n => x (t i + n)) (run x s (t i)) (f i) (r i)
  later : ∀ i, i + 1 < k → t i + 9 ≤ t (i + 1)
  between : ∀ i, i + 1 < k → ∀ m, t i + 9 ≤ m → m < t (i + 1) → ¬Restarts (run x s m)
  unloaded : ∀ i, i + 1 < k → (run x s (t (i + 1))).loadASH = false ∧ (run x s (t (i + 1))).loadBSH = false

def performAll (f : Nat → BitVec 3) (r : Nat → BitVec 2) (v : Registers) : Nat → Registers
  | 0 => v
  | n + 1 => perform (f n) (r n) (performAll f r v n)

section Executions

variable {x : Nat → Inputs} {s : State} {t : Nat → Nat} {f : Nat → BitVec 3} {r : Nat → BitVec 2} {k : Nat}
  (h : Executions x s t f r k)

include h

theorem Executions.registers_after {i : Nat} (hi : i < k) :
    (run x s (t i + 9)).registers = perform (f i) (r i) (loaded (run x s (t i))) := by
  rw [run, run_add]
  exact (h.started i hi).registers_after

theorem Executions.loaded_next {i : Nat} (hi : i + 1 < k) :
    loaded (run x s (t (i + 1))) = (run x s (t i + 9)).registers := by
  have hdone : Resting (run x s (t i + 9)) := by
    rw [run, run_add]
    exact .inl ((h.started i (Nat.lt_of_succ_lt hi)).control_at le_rfl)
  obtain ⟨_, hkept⟩ := run_rests (fun _ _ => resting_step) hdone (h.later i hi) (h.between i hi)
  obtain ⟨hloadA, hloadB⟩ := h.unloaded i hi
  rw [loaded, hloadA, hloadB, ← hkept]
  rfl

theorem Executions.registers_all {i : Nat} (hi : i < k) :
    (run x s (t i + 9)).registers = performAll f r (loaded (run x s (t 0))) (i + 1) := by
  induction i with
  | zero => exact h.registers_after hi
  | succ i ih =>
      rw [h.registers_after hi, h.loaded_next hi, ih (Nat.lt_of_succ_lt hi)]
      rfl

end Executions

/-- Eight shifts of an execution perform the parallel operation, and the registers
keep its result in J and in A. So a sequence of executions performs the operations
one after the other. -/
theorem serial_execution_performs :
    (∀ (x : Nat → Inputs) (s : State) (f : BitVec 3) (r : BitVec 2), Started x s f r →
      (run x s 9).control = .j ∧ (∀ n, n < 9 → (run x s n).control ≠ .j) ∧
        Nat.count (fun n => (run x s n).outputs.shiftEn = true) 9 = 8 ∧
        ∀ n, 9 ≤ n → (∀ m, 9 ≤ m → m < n → ¬Restarts (run x s m)) →
          Resting (run x s n) ∧ (run x s n).registers = perform f r (loaded s)) ∧
    (∀ (x : Nat → Inputs) (s : State) (t : Nat → Nat) (f : Nat → BitVec 3) (r : Nat → BitVec 2) (k : Nat),
      Executions x s t f r k → ∀ i, i < k →
        (run x s (t i + 9)).registers = performAll f r (loaded (run x s (t 0))) (i + 1)) := by
  refine ⟨?_, ?_⟩
  · intro x s f r h
    refine ⟨h.control_at le_rfl, ?_, h.shifts, ?_⟩
    · intro n hn
      rw [h.control_at hn.le]
      exact Control.schedule_ne_j hn
    · intro n hn hstays
      exact h.rest hn hstays
  · intro x s t f r k h i hi
    exact h.registers_all hi

/-- XOR to A, XNOR to B and a swap, as in the test bench, one every 16 cycles. -/
def testedF (i : Nat) : BitVec 3 := if i = 0 then 0b010 else 0b110
def testedR (i : Nat) : BitVec 2 := if i = 0 then 0b10 else if i = 1 then 0b01 else 0b11

/-- The load buttons are pressed during each execution. -/
def tested (n : Nat) : Inputs where
  reset := true
  loadA := decide (3 ≤ (n + 1) % 16 ∧ (n + 1) % 16 < 8)
  loadB := decide (3 ≤ (n + 1) % 16 ∧ (n + 1) % 16 < 8)
  execute := decide ((n + 1) % 16 ≠ 0)
  din := 0xff
  f := testedF ((n + 1) / 16)
  r := testedR ((n + 1) / 16)

def testedStart : State := ⟨false, false, false, true, 0xff, 0b010, 0b10, ⟨0x33, 0x55⟩, .a⟩

theorem executions_tested : Executions tested testedStart (fun i => 16 * i) testedF testedR 3 := by
  have hcontrol : ∀ i, i < 3 → (run tested testedStart (16 * i)).control = .a ∧
      (run tested testedStart (16 * i)).executeSH = true ∧ (run tested testedStart (16 * i)).loadASH = false ∧
      (run tested testedStart (16 * i)).loadBSH = false ∧ (run tested testedStart (16 * i + 9)).control = .j := by
    decide +kernel
  have hheld : ∀ i, i < 3 → ∀ n, n < 9 → (run tested testedStart (16 * i + n)).resetSH = false ∧
      (run tested testedStart (16 * i + n)).fS = testedF i ∧
      (run tested testedStart (16 * i + n)).rS = testedR i := by
    decide +kernel
  have hrest : ∀ i, i < 2 → ∀ m, m < 16 → 9 ≤ m → ¬((run tested testedStart (16 * i + m)).resetSH = true ∨
      (run tested testedStart (16 * i + m)).control = .a ∧
        ((run tested testedStart (16 * i + m)).executeSH = true ∨
          (run tested testedStart (16 * i + m)).loadASH = true ∨
          (run tested testedStart (16 * i + m)).loadBSH = true)) := by
    decide +kernel
  refine ⟨?_, ?_, ?_, ?_⟩
  · intro i hi
    obtain ⟨hwaiting, hpressed, _, _, hdone⟩ := hcontrol i hi
    refine ⟨hwaiting, hpressed, fun n hn => ?_⟩
    have hlt : n < 9 := by
      by_contra hge
      refine hn 9 (Nat.le_of_not_lt hge) ?_
      rw [run, ← run_add]
      exact hdone
    rw [run, ← run_add]
    exact hheld i hi n hlt
  · intro i hi
    omega
  · intro i hi m hm hlt
    obtain ⟨d, rfl⟩ := Nat.exists_eq_add_of_le (Nat.le_of_add_right_le hm)
    exact hrest i (by omega) d (by omega) (by omega)
  · intro i hi
    obtain ⟨_, _, hloadA, hloadB, _⟩ := hcontrol (i + 1) hi
    exact ⟨hloadA, hloadB⟩

theorem serial_execution_performs_tested :
    (run tested testedStart 9).registers = ⟨0x66, 0x55⟩ ∧ (run tested testedStart 41).registers = ⟨0xcc, 0x66⟩ := by
  have hstarted := executions_tested.started 0 (by decide)
  obtain ⟨-, -, -, hfirst⟩ := serial_execution_performs.1 _ _ _ _ hstarted
  have hlast := serial_execution_performs.2 _ _ _ _ _ _ executions_tested 2 (by decide)
  constructor
  · have hdone := (hfirst 9 le_rfl fun m hm hlt => absurd hlt (by omega)).2
    have hsplit := run_add step tested testedStart (16 * 0) 9
    refine (congrArg State.registers hsplit).trans (hdone.trans ?_)
    decide
  · refine hlast.trans ?_
    decide

end ECE385.SerialProcessor.Operation
