import Mathlib.Data.BitVec

namespace ECE385.SLC3.ISDU

inductive State
  | halted | pauseIR1 | pauseIR2
  | s18 | s33_1 | s33_2 | s33_3 | s35 | s32
  | s01 | s05 | s09 | s12 | s00 | s06 | s07 | s04
  | s25_1 | s25_2 | s25_3 | s27
  | s23 | s16_1 | s16_2 | s16_3
  | s22 | s21
  deriving DecidableEq, Repr

/-- The control word that the state machine drives into the datapath and the
memory: load enables, bus gates, mux selects and the two memory strobes. -/
structure Control where
  ldMAR : Bool
  ldMDR : Bool
  ldIR : Bool
  ldBEN : Bool
  ldCC : Bool
  ldREG : Bool
  ldPC : Bool
  ldLED : Bool
  gatePC : Bool
  gateMDR : Bool
  gateALU : Bool
  gateMARMUX : Bool
  pcmux : BitVec 2
  drmux : Bool
  sr1mux : Bool
  sr2mux : Bool
  addr1mux : Bool
  addr2mux : BitVec 2
  aluk : BitVec 2
  memOE : Bool
  memWE : Bool
  deriving DecidableEq, Repr

def defaults : Control where
  ldMAR := false
  ldMDR := false
  ldIR := false
  ldBEN := false
  ldCC := false
  ldREG := false
  ldPC := false
  ldLED := false
  gatePC := false
  gateMDR := false
  gateALU := false
  gateMARMUX := false
  pcmux := 0b00#2
  drmux := false
  sr1mux := false
  sr2mux := false
  addr1mux := false
  addr2mux := 0b00#2
  aluk := 0b00#2
  memOE := false
  memWE := false

def dispatch (opcode : BitVec 4) : State :=
  if opcode = 0b0001#4 then .s01
  else if opcode = 0b0101#4 then .s05
  else if opcode = 0b1001#4 then .s09
  else if opcode = 0b0110#4 then .s06
  else if opcode = 0b0111#4 then .s07
  else if opcode = 0b0100#4 then .s04
  else if opcode = 0b1100#4 then .s12
  else if opcode = 0b0000#4 then .s00
  else if opcode = 0b1101#4 then .pauseIR1
  else .s18

theorem dispatch_cases (opcode : BitVec 4) :
    dispatch opcode = .s01 ∨ dispatch opcode = .s05 ∨ dispatch opcode = .s09 ∨ dispatch opcode = .s06 ∨
      dispatch opcode = .s07 ∨ dispatch opcode = .s04 ∨ dispatch opcode = .s12 ∨ dispatch opcode = .s00 ∨
      dispatch opcode = .pauseIR1 ∨ dispatch opcode = .s18 := by
  revert opcode
  decide

/-- Next_state, with the block that the committed text has lost between its
default assignments and the case statement read at its place after S_18. -/
def nextState (state : State) (run cont : Bool) (opcode : BitVec 4) (ben : Bool) : State :=
  match state with
  | .halted => if run then .s18 else .halted
  | .s18 => .s33_1
  | .s33_1 => .s33_2
  | .s33_2 => .s33_3
  | .s33_3 => .s35
  | .s35 => .s32
  | .pauseIR1 => if !cont then .pauseIR1 else .pauseIR2
  | .pauseIR2 => if cont then .pauseIR2 else .s18
  | .s32 => dispatch opcode
  | .s01 => .s18
  | .s05 => .s18
  | .s09 => .s18
  | .s06 => .s25_1
  | .s25_1 => .s25_2
  | .s25_2 => .s25_3
  | .s25_3 => .s27
  | .s27 => .s18
  | .s07 => .s23
  | .s23 => .s16_1
  | .s16_1 => .s16_2
  | .s16_2 => .s16_3
  | .s16_3 => .s18
  | .s04 => .s21
  | .s21 => .s18
  | .s12 => .s18
  | .s00 => if ben then .s22 else .s18
  | .s22 => .s18

def control (state : State) (ir5 ir11 : Bool) : Control :=
  match state with
  | .halted => defaults
  | .s18 => { defaults with gatePC := true, ldMAR := true, pcmux := 0b00#2, ldPC := true }
  | .s33_1 => { defaults with memOE := true }
  | .s33_2 => { defaults with memOE := true }
  | .s33_3 => { defaults with memOE := true, ldMDR := true }
  | .s35 => { defaults with gateMDR := true, ldIR := true }
  | .s32 => { defaults with ldBEN := true }
  | .s01 =>
      { defaults with
        sr2mux := ir5, aluk := 0b00#2, gateALU := true, ldREG := true, sr1mux := true
        drmux := false, ldCC := true }
  | .pauseIR1 => { defaults with ldLED := true }
  | .pauseIR2 => defaults
  | .s05 =>
      { defaults with
        ldREG := true, sr1mux := true, sr2mux := ir5, drmux := false, aluk := 0b01#2
        gateALU := true, ldCC := true }
  | .s09 =>
      { defaults with
        ldREG := true, drmux := false, sr1mux := true, sr2mux := false, aluk := 0b10#2
        gateALU := true, ldCC := true }
  | .s06 =>
      { defaults with
        ldMAR := true, gateMARMUX := true, addr1mux := true, sr1mux := true, addr2mux := 0b01#2 }
  | .s25_1 => { defaults with memOE := true }
  | .s25_2 => { defaults with memOE := true }
  | .s25_3 => { defaults with memOE := true, ldMDR := true }
  | .s27 => { defaults with drmux := false, gateMDR := true, ldCC := true, ldREG := true }
  | .s07 =>
      { defaults with
        ldMAR := true, gateMARMUX := true, addr1mux := true, sr1mux := true, addr2mux := 0b01#2 }
  | .s23 => { defaults with ldMDR := true, aluk := 0b11#2, sr1mux := false, gateALU := true }
  | .s16_1 => { defaults with memWE := true }
  | .s16_2 => { defaults with memWE := true }
  | .s16_3 => { defaults with memWE := true }
  | .s04 => { defaults with ldREG := true, drmux := ir11, gatePC := true }
  | .s21 => { defaults with ldPC := true, addr2mux := 0b11#2, addr1mux := false, pcmux := 0b10#2 }
  | .s12 =>
      { defaults with
        sr1mux := true, addr1mux := true, addr2mux := 0b00#2, pcmux := 0b10#2, ldPC := true }
  | .s00 => defaults
  | .s22 => { defaults with ldPC := true, addr1mux := false, addr2mux := 0b10#2, pcmux := 0b10#2 }

/-- No state drives two sources onto the bus, so the priority order of the bus
multiplexer is never exercised. -/
theorem gates_exclusive (state : State) (ir5 ir11 : Bool) :
    let c := control state ir5 ir11
    c.gatePC.toNat + c.gateMDR.toNat + c.gateALU.toNat + c.gateMARMUX.toNat ≤ 1 := by
  cases state <;> simp [control, defaults]

theorem strobes_exclusive (state : State) (ir5 ir11 : Bool) :
    ((control state ir5 ir11).memOE && (control state ir5 ir11).memWE) = false := by
  cases state <;> rfl

theorem bus_driven (state : State) (ir5 ir11 : Bool) :
    let c := control state ir5 ir11
    (c.ldMAR || c.ldIR || c.ldCC || c.ldREG || c.ldMDR && !c.memOE) = true →
      (c.gatePC || c.gateMDR || c.gateALU || c.gateMARMUX) = true := by
  cases state <;> simp [control, defaults]

theorem dispatch_ne_pauseIR2 (opcode : BitVec 4) : dispatch opcode ≠ .pauseIR2 := by
  revert opcode
  decide

theorem pauseIR1_of_nextState {state : State} {run cont : Bool} {opcode : BitVec 4} {ben : Bool}
    (h : nextState state run cont opcode ben = .pauseIR1) :
    state = .pauseIR1 ∨ state = .s32 ∧ dispatch opcode = .pauseIR1 := by
  cases state with
  | s32 => exact .inr ⟨rfl, h⟩
  | pauseIR1 => exact .inl rfl
  | halted => cases run <;> simp [nextState] at h
  | pauseIR2 => cases cont <;> simp [nextState] at h
  | s00 => cases ben <;> simp [nextState] at h
  | _ => simp [nextState] at h

theorem pauseIR2_of_nextState {state : State} {run cont : Bool} {opcode : BitVec 4} {ben : Bool}
    (h : nextState state run cont opcode ben = .pauseIR2) :
    (state = .pauseIR1 ∨ state = .pauseIR2) ∧ cont = true := by
  cases state with
  | s32 => exact absurd h (dispatch_ne_pauseIR2 opcode)
  | pauseIR1 | pauseIR2 => simpa [nextState] using h
  | halted => cases run <;> simp [nextState] at h
  | s00 => cases ben <;> simp [nextState] at h
  | _ => simp [nextState] at h

theorem ldLED_control (state : State) (ir5 ir11 : Bool) :
    (control state ir5 ir11).ldLED = decide (state = .pauseIR1) := by
  cases state <;> rfl

/-- The cycles that the memory has been read for, this one included. -/
def accessCycle : State → Nat
  | .s33_1 => 1
  | .s33_2 => 2
  | .s33_3 => 3
  | .s25_1 => 1
  | .s25_2 => 2
  | .s25_3 => 3
  | _ => 0

theorem accessCycle_dispatch (opcode : BitVec 4) : accessCycle (dispatch opcode) = 0 := by
  revert opcode
  decide

theorem accessCycle_nextState (state : State) (run cont : Bool) (opcode : BitVec 4) (ben : Bool) {k : Nat}
    (h : accessCycle (nextState state run cont opcode ben) = k + 2) : accessCycle state = k + 1 := by
  cases state with
  | s32 =>
      rw [nextState, accessCycle_dispatch] at h
      exact absurd h (Nat.succ_ne_zero (k + 1)).symm
  | halted => cases run <;> simp [nextState, accessCycle] at h
  | pauseIR1 => cases cont <;> simp [nextState, accessCycle] at h
  | pauseIR2 => cases cont <;> simp [nextState, accessCycle] at h
  | s00 => cases ben <;> simp [nextState, accessCycle] at h
  | _ => simp_all [nextState, accessCycle]

theorem accessCycle_pos_iff (state : State) (ir5 ir11 : Bool) :
    0 < accessCycle state ↔ (control state ir5 ir11).memOE = true := by
  cases state <;> simp [accessCycle, control, defaults]

theorem accessCycle_eq_three_iff (state : State) (ir5 ir11 : Bool) :
    accessCycle state = 3 ↔ ((control state ir5 ir11).ldMDR && (control state ir5 ir11).memOE) = true := by
  cases state <;> simp [accessCycle, control, defaults]

end ECE385.SLC3.ISDU
