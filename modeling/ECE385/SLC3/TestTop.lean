import ECE385.SLC3.SramTop

namespace ECE385.SLC3.TestTop

open Datapath (Word Undriven)

/-- The memory of the simulations: 256 words, read in one edge. `memOut` is
`none` where the simulator shows x. -/
structure TestMemory where
  memArray : BitVec 8 → Word
  memOut : Option Word

/-- memory_contents.sv, which lists the words of the initialiser's table. -/
def memoryContents (address : BitVec 8) : Word := Instantiateram.data (address.setWidth 16)

def TestMemory.step (reset : Bool) (data : Word) (address : BitVec 10) (rden wren : Bool) (m : TestMemory) :
    TestMemory :=
  if reset then ⟨memoryContents, none⟩
  else if rden && !wren then ⟨m.memArray, some (m.memArray (address.setWidth 8))⟩
  else if !rden && wren then ⟨Function.update m.memArray (address.setWidth 8) data, none⟩
  else ⟨m.memArray, none⟩

/-- `undefined` is the word that stands for x in this cycle. -/
structure Inputs where
  sw : BitVec 10
  run : Bool
  cont : Bool
  undriven : Undriven
  undefined : Word

structure State where
  runS : Bool
  contS : Bool
  slc : Slc3.State
  mem : TestMemory

def State.runAh (s : State) : Bool := !s.runS
def State.contAh (s : State) : Bool := !s.contS
def State.resetAh (s : State) : Bool := !s.runS && !s.contS

def State.slcInputs (i : Inputs) (s : State) : Slc3.Inputs :=
  ⟨i.sw, s.resetAh, s.runAh, s.contAh, s.mem.memOut.getD i.undefined, i.undriven⟩

/-- One edge of Clk. The memory is reset asynchronously, so also by a Reset that
rises just after the edge. -/
def step (i : Inputs) (s : State) : State where
  runS := i.run
  contS := i.cont
  slc := Slc3.step (s.slcInputs i) s.slc
  mem := s.mem.step (s.resetAh || !i.run && !i.cont) s.slc.dataToSRAM (s.slc.addr.setWidth 10) s.slc.oe s.slc.we

abbrev run (y : Nat → Inputs) (s : State) (n : Nat) : State := Clocked.Machine.run step y s n

end ECE385.SLC3.TestTop
