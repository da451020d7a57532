import Mathlib.Logic.Function.Iterate

namespace ECE385.Multiplier.Control

inductive State
  | a | b | c | d | e | f | g | h | i | j | k | l | m1 | n | o | p | q | r | s
  deriving DecidableEq, Repr

structure Outputs where
  shiftEn : Bool
  ldAX : Bool
  ldB : Bool
  subtract : Bool
  clrAX : Bool
  myeah : Bool
  deriving DecidableEq, Repr

def nextState (run : Bool) : State → State
  | .a => if run then .b else .a
  | .b => .c
  | .c => .d
  | .d => .e
  | .e => .f
  | .f => .g
  | .g => .h
  | .h => .i
  | .i => .j
  | .j => .k
  | .k => .l
  | .l => .m1
  | .m1 => .n
  | .n => .o
  | .o => .p
  | .p => .q
  | .q => .r
  | .r => .s
  | .s => if !run then .a else .s

def step (reset run : Bool) (currState : State) : State := if reset then .a else nextState run currState

/-- The adder subtracts from P on, so only in the last addition. -/
def outputs (rlc m : Bool) : State → Outputs
  | .a => { shiftEn := false, ldAX := false, ldB := rlc, subtract := false, clrAX := rlc, myeah := m }
  | .b => { shiftEn := false, ldAX := false, ldB := false, subtract := false, clrAX := true, myeah := m }
  | .c | .e | .g | .i | .k | .m1 | .o =>
      { shiftEn := false, ldAX := true, ldB := false, subtract := false, clrAX := false, myeah := m }
  | .d | .f | .h | .j | .l | .n =>
      { shiftEn := true, ldAX := false, ldB := false, subtract := false, clrAX := false, myeah := m }
  | .p => { shiftEn := true, ldAX := false, ldB := false, subtract := true, clrAX := false, myeah := m }
  | .q => { shiftEn := false, ldAX := true, ldB := false, subtract := true, clrAX := false, myeah := m }
  | .r => { shiftEn := true, ldAX := false, ldB := false, subtract := true, clrAX := false, myeah := m }
  | .s => { shiftEn := false, ldAX := false, ldB := false, subtract := false, clrAX := false, myeah := m }

/-- The state `n` cycles after A, while Run is pressed. -/
def schedule (n : Nat) : State := (nextState true)^[n] .a

theorem nextState_schedule (run : Bool) {n : Nat} (hpos : 0 < n) (hn : n < 18) :
    nextState run (schedule n) = schedule (n + 1) := by
  have hall : ∀ n, n < 18 → 0 < n → ∀ run, nextState run (schedule n) = schedule (n + 1) := by decide
  exact hall n hn hpos run

theorem schedule_ne_s {n : Nat} (hn : n < 18) : schedule n ≠ .s := by
  have hall : ∀ n, n < 18 → schedule n ≠ .s := by decide
  exact hall n hn

theorem adding_outputs (rlc m : Bool) {k : Nat} (hk : k < 8) :
    outputs rlc m (schedule (2 * k + 2)) =
      { shiftEn := false, ldAX := true, ldB := false, subtract := decide (k = 7), clrAX := false, myeah := m } := by
  match k, hk with
  | 0, _ | 1, _ | 2, _ | 3, _ | 4, _ | 5, _ | 6, _ | 7, _ => rfl

theorem shifting_outputs (rlc m : Bool) {k : Nat} (hk : k < 8) :
    outputs rlc m (schedule (2 * k + 3)) =
      { shiftEn := true, ldAX := false, ldB := false, subtract := decide (6 ≤ k), clrAX := false, myeah := m } := by
  match k, hk with
  | 0, _ | 1, _ | 2, _ | 3, _ | 4, _ | 5, _ | 6, _ | 7, _ => rfl

end ECE385.Multiplier.Control
