import Mathlib.Data.BitVec
import ECE385.SLC3.ISDU

namespace ECE385.SLC3.Datapath

open ISDU (Control)

abbrev Word := BitVec 16

/-- Values of nets that nothing drives: the bus when no gate is open and the
fourth leg of the PC multiplexer, an undeclared net. -/
structure Undriven where
  bus : Word
  dontcare : Word

structure Registers where
  regFile : BitVec 3 → Word
  pc : Word
  mar : Word
  mdr : Word
  ir : Word
  nzp : BitVec 3
  ben : Bool
  led : BitVec 10

def mux2 {n : Nat} (d d1 : BitVec n) (s : Bool) : BitVec n :=
  if s then d1 else d

def mux4 (d d1 d2 d3 : Word) (s : BitVec 2) : Word :=
  if s = 0b00#2 then d else if s = 0b01#2 then d1 else if s = 0b10#2 then d2 else d3

def alu (a b : Word) (aluk : BitVec 2) : Word :=
  if aluk = 0b00#2 then a + b
  else if aluk = 0b01#2 then a &&& b
  else if aluk = 0b10#2 then ~~~a
  else a

def ir5SE (ir : Word) : Word := (ir.extractLsb' 0 5).signExtend 16
def ir6SE (ir : Word) : Word := (ir.extractLsb' 0 6).signExtend 16
def ir9SE (ir : Word) : Word := (ir.extractLsb' 0 9).signExtend 16
def ir11SE (ir : Word) : Word := (ir.extractLsb' 0 11).signExtend 16

def drmuxOut (c : Control) (ir : Word) : BitVec 3 :=
  mux2 (ir.extractLsb' 9 3) 0b111#3 c.drmux

def sr1muxOut (c : Control) (ir : Word) : BitVec 3 :=
  mux2 (ir.extractLsb' 9 3) (ir.extractLsb' 6 3) c.sr1mux

def sr1Out (c : Control) (d : Registers) : Word := d.regFile (sr1muxOut c d.ir)

def sr2Out (d : Registers) : Word := d.regFile (d.ir.extractLsb' 0 3)

/-- The select is wired to IR[5] itself, not to the controller's SR2MUX. -/
def sr2muxOut (d : Registers) : Word := mux2 (sr2Out d) (ir5SE d.ir) (d.ir.getLsbD 5)

def aluOut (c : Control) (d : Registers) : Word := alu (sr1Out c d) (sr2muxOut d) c.aluk

def addr1muxOut (c : Control) (d : Registers) : Word := mux2 d.pc (sr1Out c d) c.addr1mux

def addr2muxOut (c : Control) (ir : Word) : Word :=
  mux4 0 (ir6SE ir) (ir9SE ir) (ir11SE ir) c.addr2mux

def address (c : Control) (d : Registers) : Word := addr2muxOut c d.ir + addr1muxOut c d

def busmux (c : Control) (u : Undriven) (d : Registers) : Word :=
  if c.gatePC then d.pc
  else if c.gateMDR then d.mdr
  else if c.gateMARMUX then address c d
  else if c.gateALU then aluOut c d
  else u.bus

def nzpIn (bus : Word) : BitVec 3 :=
  if bus = 0 then 0b010#3 else if !bus.getLsbD 15 then 0b001#3 else 0b100#3

def benIn (ir : Word) (nzp : BitVec 3) : Bool :=
  ir.getLsbD 11 && nzp.getLsbD 2 || ir.getLsbD 10 && nzp.getLsbD 1 || ir.getLsbD 9 && nzp.getLsbD 0

def pcmuxOut (c : Control) (u : Undriven) (d : Registers) : Word :=
  mux4 (d.pc + 1) (busmux c u d) (address c d) u.dontcare c.pcmux

def load {α : Type} (reset ld : Bool) (zero d q : α) : α :=
  if reset then zero else if ld then d else q

/-- One edge of Clk. MIO_EN is wired to the memory's output enable. -/
def step (c : Control) (reset : Bool) (mdrIn : Word) (u : Undriven) (d : Registers) : Registers :=
  let bus := busmux c u d
  { regFile := fun r => load reset (c.ldREG && r == drmuxOut c d.ir) 0 bus (d.regFile r)
    pc := load reset c.ldPC 0 (pcmuxOut c u d) d.pc
    mar := load reset c.ldMAR 0 bus d.mar
    mdr := load reset c.ldMDR 0 (mux2 bus mdrIn c.memOE) d.mdr
    ir := load reset c.ldIR 0 bus d.ir
    nzp := load reset c.ldCC 0 (nzpIn bus) d.nzp
    ben := load reset c.ldBEN false (benIn d.ir d.nzp) d.ben
    led := if c.ldLED then d.ir.extractLsb' 0 10 else 0 }

@[simp] theorem load_reset {α : Type} (ld : Bool) (zero d q : α) : load true ld zero d q = zero := rfl
@[simp] theorem load_hold {α : Type} (zero d q : α) : load false false zero d q = q := rfl
@[simp] theorem load_take {α : Type} (zero d q : α) : load false true zero d q = d := rfl

theorem write_regFile (f : BitVec 3 → Word) (dr : BitVec 3) (d : Word) :
    (fun r => load false (r == dr) 0 d (f r)) = Function.update f dr d := by
  funext r
  by_cases h : r = dr <;> simp [load, h]

/-- Reset clears everything but the LED register, which has no reset. -/
theorem step_reset (c : Control) (mdrIn : Word) (u : Undriven) (d : Registers) :
    step c true mdrIn u d =
      ⟨fun _ => 0, 0, 0, 0, 0, 0, false, if c.ldLED then d.ir.extractLsb' 0 10 else 0⟩ := rfl

end ECE385.SLC3.Datapath
