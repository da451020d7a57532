import ECE385.SLC3.Datapath

namespace ECE385.SLC3.Slc3

open Datapath (Word Undriven Registers)

def mappedAddress : Word := 0xffff

def dataToCPU (addr : Word) (oe we : Bool) (switches : BitVec 10) (dataFromSRAM : Word) : Word :=
  if !we && oe then
    if addr = mappedAddress then 0#6 ++ switches else dataFromSRAM
  else 0

def hexDataNext (reset : Bool) (addr : Word) (we : Bool) (dataFromCPU hexData : Word) : Word :=
  if reset then 0 else if we && addr == mappedAddress then dataFromCPU else hexData

structure State where
  isdu : ISDU.State
  dp : Registers
  hexData : Word

structure Inputs where
  sw : BitVec 10
  reset : Bool
  run : Bool
  cont : Bool
  dataFromSRAM : Word
  undriven : Undriven

def State.control (s : State) : ISDU.Control := ISDU.control s.isdu (s.dp.ir.getLsbD 5) (s.dp.ir.getLsbD 11)

def State.oe (s : State) : Bool := s.control.memOE
def State.we (s : State) : Bool := s.control.memWE
def State.addr (s : State) : Word := s.dp.mar
def State.dataToSRAM (s : State) : Word := s.dp.mdr

def State.opcode (s : State) : BitVec 4 := s.dp.ir.extractLsb' 12 4

def step (i : Inputs) (s : State) : State where
  isdu := if i.reset then .halted else ISDU.nextState s.isdu i.run i.cont s.opcode s.dp.ben
  dp := Datapath.step s.control i.reset (dataToCPU s.addr s.oe s.we i.sw i.dataFromSRAM) i.undriven s.dp
  hexData := hexDataNext i.reset s.addr s.we s.dp.mdr s.hexData

end ECE385.SLC3.Slc3
