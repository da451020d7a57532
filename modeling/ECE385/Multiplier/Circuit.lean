import ECE385.Clocked.Machine
import ECE385.Multiplier.Adder
import ECE385.Multiplier.Control

namespace ECE385.Multiplier.Circuit

open Adder (rippleAdder9)
open Control (Outputs)

def reg1 (reset load shiftEn d dataOut : Bool) : Bool :=
  if reset then false else if load then d else if shiftEn then false else dataOut

def reg8 (reset shiftIn load shiftEn : Bool) (d dataOut : BitVec 8) : BitVec 8 :=
  if reset then 0
  else if load then d
  else if shiftEn then BitVec.ofBool shiftIn ++ dataOut.extractLsb' 1 7
  else dataOut

structure Registers where
  x : Bool
  a : BitVec 8
  b : BitVec 8
  deriving DecidableEq

def Registers.m (r : Registers) : Bool := r.b.getLsbD 0

def registerUnit (reset xIn ldAX ldB shiftEn : Bool) (swb aIn : BitVec 8) (r : Registers) : Registers where
  x := reg1 reset ldAX shiftEn xIn r.x
  a := reg8 reset r.x ldAX shiftEn aIn r.a
  b := reg8 false (r.a.getLsbD 0) ldB shiftEn swb r.b

/-- The buttons and the switches; Reset_Load_Clear and Run are low when pressed. -/
structure Inputs where
  resetLoadClear : Bool
  run : Bool
  reset : Bool
  sw : BitVec 8

structure State where
  resetLoadClearSH : Bool
  runSH : Bool
  resetSH : Bool
  swS : BitVec 8
  registers : Registers
  control : Control.State

def State.outputs (s : State) : Outputs := Control.outputs s.resetLoadClearSH s.registers.m s.control

def State.datapath (s : State) : Registers :=
  let sum := rippleAdder9 s.registers.a s.swS s.registers.m s.outputs.subtract
  registerUnit s.outputs.clrAX sum.sx s.outputs.ldAX s.outputs.ldB s.outputs.shiftEn s.swS sum.sa s.registers

def step (i : Inputs) (s : State) : State where
  resetLoadClearSH := !i.resetLoadClear
  runSH := !i.run
  resetSH := i.reset
  swS := i.sw
  registers := s.datapath
  control := Control.step s.resetSH s.runSH s.control

abbrev run (x : Nat → Inputs) (s : State) (n : Nat) : State := Clocked.Machine.run step x s n

def Registers.ab (r : Registers) : BitVec 16 := r.a ++ r.b

end ECE385.Multiplier.Circuit
