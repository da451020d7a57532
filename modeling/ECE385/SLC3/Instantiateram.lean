import Mathlib.Data.BitVec
import ECE385.SLC3.Assembler

namespace ECE385.SLC3.Instantiateram

open Assembler

def bootstrap : List Word :=
  [ opCLR r0, opLDR r1 r0 inSW, opJMP r1 ]

def ioTest1 : List Word :=
  [ opLDR r1 r0 inSW, opSTR r1 r0 outHEX, opBR nzp (-3) ]

def ioTest2 : List Word :=
  [ opPSE 0x801#12, opLDR r1 r0 inSW, opSTR r1 r0 outHEX, opPSE 0xC02#12, opBR nzp (-4) ]

def ioTest3 : List Word :=
  [ opPSE 0x801#12, opJSR 0, opLDR r2 r7 3, opLDR r1 r0 inSW, opSTR r1 r0 outHEX, opPSE 0xC02#12,
    opINC r2, opSTR r2 r7 3, opBR nzp (-6) ]

def xorTest : List Word :=
  [ opCLR r0, opPSE 0x801#12, opLDR r1 r0 inSW, opPSE 0x802#12, opLDR r2 r0 inSW, opNOT r3 r1,
    opAND r3 r3 r2, opNOT r3 r3, opNOT r4 r2, opAND r4 r4 r1, opNOT r4 r4, opAND r3 r3 r4,
    opNOT r3 r3, opSTR r3 r0 outHEX, opPSE 0x405#12, opBR nzp (-15), noOp, noOp, noOp, noOp,
    noOp, noOp ]

def runOnceTest : List Word :=
  [ opCLR r0, opCLR r1, opJSR 0, opSTR r1 r0 outHEX, opPSE 0x401#12, opINC r1, opRET ]

def multiplier : List Word :=
  [ opCLR r0, opJSR 0, opLDR r3 r7 22, opCLR r4, opCLR r5, opPSE 0x801#12, opLDR r1 r0 inSW,
    opPSE 0x802#12, opLDR r2 r0 inSW, opADD r5 r5 r5, opAND r7 r3 r1, opBR z 1, opADD r5 r5 r2,
    opADDi r4 r4 0, opBR p 2, opNOT r5 r5, opINC r5, opINC r4, opADD r1 r1 r1, opADDi r7 r4 (-8),
    opBR n (-12), opSTR r5 r0 outHEX, opPSE 0x403#12, opBR nzp (-21), 0x0080#16 ]

def sortData : List Word :=
  [ 0x00ef#16, 0x001b#16, 0x0001#16, 0x008c#16, 0x00db#16, 0x00fa#16, 0x0047#16, 0x0046#16,
    0x001f#16, 0x000d#16, 0x00b8#16, 0x0003#16, 0x006b#16, 0x004e#16, 0x00f8#16, 0x0007#16 ]

def sortMenu : List Word :=
  [ opCLR r0, opJSR 0, opADDi r6 r7 (-16), opADDi r6 r6 (-2), opPSE 0x3FF#12, opLDR r1 r0 inSW,
    opBR z (-3), opDEC r1, opBR np 2, opJSR 9, opBR nzp (-7), opDEC r1, opBR np 2, opJSR 15,
    opBR nzp (-11), opDEC r1, opBR np (-13), opJSR 29, opBR nzp (-15) ]

def entryFunction : List Word :=
  [ opCLR r1, opSTR r1 r0 outHEX, opPSE 0xC01#12, opLDR r2 r0 inSW, opADD r5 r6 r1,
    opSTR r2 r5 0, opINC r1, opADDi r3 r1 (-16), opBR n (-8), opRET ]

def sortFunction : List Word :=
  [ opADDi r1 r0 (-16), opADDi r2 r0 1, opADD r3 r6 r2, opLDR r4 r3 (-1), opLDR r5 r3 0,
    opNOT r5 r5, opADDi r5 r5 1, opADD r5 r4 r5, opBR nz 3, opLDR r5 r3 0, opSTR r5 r3 (-1),
    opSTR r4 r3 0, opINC r2, opADD r3 r1 r2, opBR n (-13), opINC r1, opBR n (-16), opRET ]

def displayFunction : List Word :=
  [ opCLR r1, opADD r4 r7 r0, opJSR 0, opADD r5 r7 r0, opADD r7 r4 r0, opLDR r3 r5 15,
    opADDi r2 r0 8, opADD r2 r2 r2, opADD r4 r6 r1, opLDR r4 r4 0, opSTR r4 r0 outHEX,
    opPSE 0x802#12, opADD r3 r3 r2, opSTR r3 r5 8, opINC r1, opADDi r4 r1 (-16), opBR n (-9),
    opRET, opPSE 0x802#12 ]

/-- The initialiser's table, in address order from 0. -/
def program : List Word :=
  bootstrap ++ ioTest1 ++ ioTest2 ++ ioTest3 ++ xorTest ++ runOnceTest ++ multiplier ++ sortData ++
    sortMenu ++ entryFunction ++ sortFunction ++ displayFunction

def data (address : Word) : Word := program.getD address.toNat 0

inductive State
  | idle | memWrite | done
  deriving DecidableEq, Repr

structure Loader where
  state : State
  address : Word
  deriving DecidableEq

def Loader.nextState (l : Loader) : State :=
  match l.state with
  | .idle => .idle
  | .memWrite => if l.address = 0xff#16 then .done else .memWrite
  | .done => .idle

def Loader.wren (l : Loader) : Bool :=
  match l.state with
  | .idle => false
  | .memWrite => true
  | .done => false

def Loader.accumulate (l : Loader) : Bool :=
  match l.state with
  | .idle => false
  | .memWrite => true
  | .done => false

def Loader.cleared : Loader := ⟨.memWrite, 0⟩

def Loader.advance (l : Loader) : Loader :=
  ⟨l.nextState, if l.accumulate then l.address + 1 else l.address⟩

/-- One edge of Clk, from a cycle with Reset at `reset` to one with Reset at
`reset'`. The reset is asynchronous: when it rises just after the edge, the
registers are cleared at once. -/
def Loader.step (reset reset' : Bool) (l : Loader) : Loader :=
  if reset || reset' then .cleared else l.advance

theorem advance_wren {l : Loader} (h : l.advance.wren = true) : l.wren = true ∧ l.address ≠ 0xff#16 := by
  obtain ⟨state, address⟩ := l
  cases state with
  | memWrite =>
      refine ⟨rfl, ?_⟩
      rintro rfl
      exact Bool.noConfusion h
  | idle => exact Bool.noConfusion h
  | done => exact Bool.noConfusion h

theorem advance_released {l : Loader} (h : l.wren = false) : l.advance.wren = false := by
  by_contra hwren
  exact Bool.false_ne_true (h.symm.trans (advance_wren (Bool.eq_true_of_not_eq_false hwren)).1)

end ECE385.SLC3.Instantiateram
