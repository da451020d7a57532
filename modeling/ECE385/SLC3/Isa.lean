import Mathlib.Data.BitVec
import ECE385.Clocked.LastWrite

namespace ECE385.SLC3.Isa

open Clocked.LastWrite (write)

abbrev Word := BitVec 16
abbrev Reg := BitVec 3

inductive Operand
  | reg (r : Reg)
  | imm (v : Word)
  deriving DecidableEq

inductive Instr
  | add (dr sr1 : Reg) (op : Operand)
  | and (dr sr1 : Reg) (op : Operand)
  | not (dr sr : Reg)
  | br (condition : BitVec 3) (offset : Word)
  | jmp (base : Reg)
  | jsr (link : Reg) (offset : Word)
  | ldr (dr base : Reg) (offset : Word)
  | str (sr base : Reg) (offset : Word)
  | pse
  | nop
  deriving DecidableEq

/-- What a program can see: registers, condition codes, the memory of 1024 words
and the display. -/
structure State where
  reg : Reg → Word
  pc : Word
  nzp : BitVec 3
  mem : BitVec 10 → Word
  hex : Word

def operand (w : Word) : Operand :=
  if w.getLsbD 5 then .imm ((w.extractLsb' 0 5).signExtend 16) else .reg (w.extractLsb' 0 3)

/-- JSR saves the return address in R7. The form with bit 11 clear, which no
assembler function emits, saves it in the register named by bits 11 to 9. -/
def link (w : Word) : Reg := if w.getLsbD 11 then 0b111#3 else w.extractLsb' 9 3

def decode (w : Word) : Instr :=
  let opcode := w.extractLsb' 12 4
  let high := w.extractLsb' 9 3
  let mid := w.extractLsb' 6 3
  let offset6 := (w.extractLsb' 0 6).signExtend 16
  let offset9 := (w.extractLsb' 0 9).signExtend 16
  let offset11 := (w.extractLsb' 0 11).signExtend 16
  if opcode = 0b0001#4 then .add high mid (operand w)
  else if opcode = 0b0101#4 then .and high mid (operand w)
  else if opcode = 0b1001#4 then .not high mid
  else if opcode = 0b0110#4 then .ldr high mid offset6
  else if opcode = 0b0111#4 then .str high mid offset6
  else if opcode = 0b0100#4 then .jsr (link w) offset11
  else if opcode = 0b1100#4 then .jmp mid
  else if opcode = 0b0000#4 then .br high offset9
  else if opcode = 0b1101#4 then .pse
  else .nop

def conditionCodes (v : Word) : BitVec 3 :=
  if v = 0 then 0b010#3 else if v.msb then 0b100#3 else 0b001#3

/-- Reading xFFFF reads the switches. -/
def State.read (a : State) (sw : BitVec 10) (address : Word) : Word :=
  if address = 0xffff#16 then sw.setWidth 16 else a.mem (address.setWidth 10)

/-- Every store reaches the memory, one to xFFFF the display as well. -/
def State.write (a : State) (address v : Word) : State :=
  { a with
    mem := Function.update a.mem (address.setWidth 10) v
    hex := if address = 0xffff#16 then v else a.hex }

def State.setReg (a : State) (dr : Reg) (v : Word) : State :=
  { a with reg := Function.update a.reg dr v }

def State.result (a : State) (dr : Reg) (v : Word) : State :=
  { a.setReg dr v with nzp := conditionCodes v }

def Operand.value (a : State) : Operand → Word
  | .reg r => a.reg r
  | .imm v => v

/-- The effect of an instruction after the increment of the PC; `sw` are the
switches when it loads. -/
def Instr.exec (sw : BitVec 10) (a : State) : Instr → State
  | .add dr sr1 op => a.result dr (a.reg sr1 + op.value a)
  | .and dr sr1 op => a.result dr (a.reg sr1 &&& op.value a)
  | .not dr sr => a.result dr (~~~a.reg sr)
  | .br condition offset => if condition &&& a.nzp ≠ 0 then { a with pc := a.pc + offset } else a
  | .jmp base => { a with pc := a.reg base }
  | .jsr link offset => { a.setReg link a.pc with pc := a.pc + offset }
  | .ldr dr base offset => a.result dr (a.read sw (a.reg base + offset))
  | .str sr base offset => a.write (a.reg base + offset) (a.reg sr)
  | .pse => a
  | .nop => a

def State.fetch (a : State) (sw : BitVec 10) : Word := a.read sw a.pc

/-- One instruction, with the switches seen by its fetch and by its load. -/
def State.next (a : State) (swFetch swLoad : BitVec 10) : State :=
  (decode (a.fetch swFetch)).exec swLoad { a with pc := a.pc + 1 }

def State.store (a : State) (swFetch : BitVec 10) : Option (Word × Word) :=
  match decode (a.fetch swFetch) with
  | .str sr base offset => some (a.reg base + offset, a.reg sr)
  | _ => none

def State.load (a : State) (swFetch : BitVec 10) : Option (Reg × Word) :=
  match decode (a.fetch swFetch) with
  | .ldr dr base offset => some (dr, a.reg base + offset)
  | _ => none

section Next

variable (a : State) (swFetch swLoad : BitVec 10)

theorem next_mem : (a.next swFetch swLoad).mem =
    write a.mem ((a.store swFetch).map fun s => (s.1.setWidth 10, s.2)) := by
  rw [State.next, State.store]
  cases decode (a.fetch swFetch) with
  | br condition offset => exact apply_ite State.mem .. |>.trans (ite_self _)
  | _ => rfl

theorem next_hex : (a.next swFetch swLoad).hex =
    match a.store swFetch with
    | some (address, v) => if address = 0xffff#16 then v else a.hex
    | none => a.hex := by
  rw [State.next, State.store]
  cases decode (a.fetch swFetch) with
  | br condition offset => exact apply_ite State.hex .. |>.trans (ite_self _)
  | _ => rfl

theorem next_load {dr : Reg} {address : Word} (h : a.load swFetch = some (dr, address)) :
    (a.next swFetch swLoad).reg dr = a.read swLoad address := by
  rw [State.load] at h
  rw [State.next]
  cases hinstr : decode (a.fetch swFetch) with
  | ldr dr' base offset =>
      rw [hinstr] at h
      obtain ⟨rfl, rfl⟩ : dr' = dr ∧ a.reg base + offset = address := by simpa using h
      exact Function.update_self ..
  | _ => simp [hinstr] at h

end Next

end ECE385.SLC3.Isa
