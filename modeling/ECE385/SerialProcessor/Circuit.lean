import Mathlib.Data.BitVec
import ECE385.Clocked.Machine
import ECE385.SerialProcessor.Control

namespace ECE385.SerialProcessor.Circuit

open Control (Outputs)

/-- Eight bits wide in spite of its name. -/
def reg4 (reset shiftIn load shiftEn : Bool) (d dataOut : BitVec 8) : BitVec 8 :=
  if reset then 0
  else if load then d
  else if shiftEn then BitVec.ofBool shiftIn ++ dataOut.extractLsb' 1 7
  else dataOut

structure Registers where
  a : BitVec 8
  b : BitVec 8
  deriving DecidableEq

def Registers.aOut (r : Registers) : Bool := r.a.getLsbD 0
def Registers.bOut (r : Registers) : Bool := r.b.getLsbD 0

def registerUnit (reset aIn bIn ldA ldB shiftEn : Bool) (d : BitVec 8) (r : Registers) : Registers where
  a := reg4 reset aIn ldA shiftEn d r.a
  b := reg4 reset bIn ldB shiftEn d r.b

structure Computed where
  aOut : Bool
  bOut : Bool
  fAB : Bool

def compute (f : BitVec 3) (aIn bIn : Bool) : Computed where
  fAB :=
    match f with
    | 0b000#3 => aIn && bIn
    | 0b001#3 => aIn || bIn
    | 0b010#3 => aIn ^^ bIn
    | 0b011#3 => true
    | 0b100#3 => !(aIn && bIn)
    | 0b101#3 => !(aIn || bIn)
    | 0b110#3 => !(aIn ^^ bIn)
    | 0b111#3 => false
  aOut := aIn
  bOut := bIn

structure Routed where
  aOut : Bool
  bOut : Bool

def router (r : BitVec 2) (aIn bIn fAB : Bool) : Routed where
  aOut :=
    match r with
    | 0b00#2 => aIn
    | 0b01#2 => aIn
    | 0b10#2 => fAB
    | 0b11#2 => bIn
  bOut :=
    match r with
    | 0b00#2 => bIn
    | 0b01#2 => fAB
    | 0b10#2 => bIn
    | 0b11#2 => aIn

/-- The buttons and the switches; Reset and Execute are low when pressed. -/
structure Inputs where
  reset : Bool
  loadA : Bool
  loadB : Bool
  execute : Bool
  din : BitVec 8
  f : BitVec 3
  r : BitVec 2

structure State where
  resetSH : Bool
  loadASH : Bool
  loadBSH : Bool
  executeSH : Bool
  dinS : BitVec 8
  fS : BitVec 3
  rS : BitVec 2
  registers : Registers
  control : Control.State

def State.outputs (s : State) : Outputs := Control.outputs s.loadASH s.loadBSH s.control

def State.routed (s : State) : Routed :=
  let bits := compute s.fS s.registers.aOut s.registers.bOut
  router s.rS bits.aOut bits.bOut bits.fAB

def State.datapath (s : State) : Registers :=
  registerUnit s.resetSH s.routed.aOut s.routed.bOut s.outputs.ldA s.outputs.ldB s.outputs.shiftEn s.dinS
    s.registers

def step (i : Inputs) (s : State) : State where
  resetSH := !i.reset
  loadASH := i.loadA
  loadBSH := i.loadB
  executeSH := !i.execute
  dinS := i.din
  fS := i.f
  rS := i.r
  registers := s.datapath
  control := Control.step s.resetSH s.executeSH s.control

abbrev run (x : Nat → Inputs) (s : State) (n : Nat) : State := Clocked.Machine.run step x s n

end ECE385.SerialProcessor.Circuit
