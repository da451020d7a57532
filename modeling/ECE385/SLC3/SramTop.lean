import ECE385.Clocked.Machine
import ECE385.SLC3.Instantiateram
import ECE385.SLC3.Slc3

namespace ECE385.SLC3.SramTop

open Datapath (Word Undriven)
open Instantiateram (Loader)

/-- The single-port block memory: a read address taken with `rden` reaches the
output register `q` two edges later. -/
structure Ram where
  mem : BitVec 10 → Word
  latch : Word
  q : Word

/-- `dontcare` is what a read returns that meets a write to its port. -/
def Ram.step (address : BitVec 10) (data : Word) (rden wren : Bool) (dontcare : Word) (r : Ram) : Ram where
  mem := if wren then Function.update r.mem address data else r.mem
  latch := if rden then if wren then dontcare else r.mem address else r.latch
  q := r.latch

/-- One cycle of the environment: the switches, the raw button levels (low when
pressed) and the values of everything that the design leaves open. -/
structure Inputs where
  sw : BitVec 10
  run : Bool
  cont : Bool
  undriven : Undriven
  dontcare : Word

structure State where
  runS : Bool
  contS : Bool
  slc : Slc3.State
  loader : Loader
  ram : Ram

def State.runAh (s : State) : Bool := !s.runS
def State.contAh (s : State) : Bool := !s.contS
def State.resetAh (s : State) : Bool := !s.runS && !s.contS

def State.weSelect (s : State) : Bool := s.loader.wren

def State.we (s : State) : Bool := if s.weSelect then s.weSelect else s.slc.we

def State.dataToSRAM (s : State) : Word :=
  if s.weSelect then Instantiateram.data s.loader.address else s.slc.dataToSRAM

def State.addr (s : State) : Word := if s.weSelect then s.loader.address else s.slc.addr

def State.slcInputs (i : Inputs) (s : State) : Slc3.Inputs :=
  ⟨i.sw, s.resetAh, s.runAh, s.contAh, s.ram.q, i.undriven⟩

/-- One edge of Clk. The synchronisers take the button levels, so the reset
level after the edge is already that of the levels in `i`. -/
def step (i : Inputs) (s : State) : State where
  runS := i.run
  contS := i.cont
  slc := Slc3.step (s.slcInputs i) s.slc
  loader := s.loader.step s.resetAh (!i.run && !i.cont)
  ram := s.ram.step (s.addr.setWidth 10) s.dataToSRAM s.slc.oe s.we i.dontcare

abbrev run (x : Nat → Inputs) (s : State) (n : Nat) : State := Clocked.Machine.run step x s n

def AtS18 (s : State) : Prop := s.slc.isdu = .s18

def settled (mem : BitVec 10 → Word) : State where
  runS := true
  contS := true
  slc := ⟨.s18, ⟨fun _ => 0, 0, 0, 0, 0, 0, false, 0⟩, 0⟩
  loader := ⟨.idle, 0⟩
  ram := ⟨mem, 0, 0⟩

def handsOff (sw : BitVec 10) : Inputs := ⟨sw, true, true, ⟨0, 0⟩, 0⟩

theorem settled_resetAh (mem : BitVec 10 → Word) (sw : BitVec 10) (n : Nat) :
    (run (fun _ => handsOff sw) (settled mem) n).resetAh = false := by
  cases n <;> rfl

end ECE385.SLC3.SramTop
