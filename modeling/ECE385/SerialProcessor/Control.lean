import Mathlib.Logic.Function.Iterate

namespace ECE385.SerialProcessor.Control

inductive State
  | a | b | c | d | e | f | g | h | i | j
  deriving DecidableEq, Repr

structure Outputs where
  shiftEn : Bool
  ldA : Bool
  ldB : Bool
  deriving DecidableEq, Repr

def nextState (execute : Bool) : State → State
  | .a => if execute then .b else .a
  | .b => .c
  | .c => .d
  | .d => .e
  | .e => .f
  | .f => .g
  | .g => .h
  | .h => .i
  | .i => .j
  | .j => if !execute then .a else .j

def step (reset execute : Bool) (currState : State) : State := if reset then .a else nextState execute currState

def outputs (loadA loadB : Bool) : State → Outputs
  | .a => { shiftEn := false, ldA := loadA, ldB := loadB }
  | .j => { shiftEn := false, ldA := false, ldB := false }
  | _ => { shiftEn := true, ldA := false, ldB := false }

/-- The state `n` cycles after A, while Execute is pressed. -/
def schedule (n : Nat) : State := (nextState true)^[n] .a

theorem nextState_schedule (execute : Bool) {n : Nat} (hpos : 0 < n) (hn : n < 9) :
    nextState execute (schedule n) = schedule (n + 1) := by
  have hall : ∀ n, n < 9 → 0 < n → ∀ execute, nextState execute (schedule n) = schedule (n + 1) := by decide
  exact hall n hn hpos execute

theorem schedule_ne_j {n : Nat} (hn : n < 9) : schedule n ≠ .j := by
  have hall : ∀ n, n < 9 → schedule n ≠ .j := by decide
  exact hall n hn

theorem outputs_schedule (loadA loadB : Bool) {n : Nat} (hpos : 0 < n) (hn : n < 9) :
    outputs loadA loadB (schedule n) = { shiftEn := true, ldA := false, ldB := false } := by
  have hall : ∀ n, n < 9 → 0 < n → ∀ loadA loadB,
      outputs loadA loadB (schedule n) = { shiftEn := true, ldA := false, ldB := false } := by decide
  exact hall n hn hpos loadA loadB

end ECE385.SerialProcessor.Control
