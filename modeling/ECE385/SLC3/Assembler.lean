import Mathlib.Data.BitVec

namespace ECE385.SLC3.Assembler

abbrev Word := BitVec 16
abbrev Reg := BitVec 3

def opcodeADD : BitVec 4 := 0b0001
def opcodeAND : BitVec 4 := 0b0101
def opcodeNOT : BitVec 4 := 0b1001
def opcodeBR : BitVec 4 := 0b0000
def opcodeJMP : BitVec 4 := 0b1100
def opcodeJSR : BitVec 4 := 0b0100
def opcodeLDR : BitVec 4 := 0b0110
def opcodeSTR : BitVec 4 := 0b0111
def opcodePSE : BitVec 4 := 0b1101

def noOp : Word := 0

def r0 : Reg := 0b000
def r1 : Reg := 0b001
def r2 : Reg := 0b010
def r3 : Reg := 0b011
def r4 : Reg := 0b100
def r5 : Reg := 0b101
def r6 : Reg := 0b110
def r7 : Reg := 0b111

def p : BitVec 3 := 0b001
def z : BitVec 3 := 0b010
def zp : BitVec 3 := 0b011
def n : BitVec 3 := 0b100
def np : BitVec 3 := 0b101
def nz : BitVec 3 := 0b110
def nzp : BitVec 3 := 0b111

def outHEX : Int := -1
def inSW : Int := -1

def opCLR (dr : Reg) : Word := opcodeAND ++ dr ++ dr ++ 1#1 ++ 0#5

def opAND (dr sr1 sr2 : Reg) : Word := opcodeAND ++ dr ++ sr1 ++ 0#3 ++ sr2

def opANDi (dr sr : Reg) (imm5 : Int) : Word := opcodeAND ++ dr ++ sr ++ 1#1 ++ BitVec.ofInt 5 imm5

def opADD (dr sr1 sr2 : Reg) : Word := opcodeADD ++ dr ++ sr1 ++ 0#3 ++ sr2

def opADDi (dr sr : Reg) (imm5 : Int) : Word := opcodeADD ++ dr ++ sr ++ 1#1 ++ BitVec.ofInt 5 imm5

def opINC (dr : Reg) : Word := opcodeADD ++ dr ++ dr ++ 1#1 ++ BitVec.ofInt 5 1

def opDEC (dr : Reg) : Word := opcodeADD ++ dr ++ dr ++ 1#1 ++ BitVec.ofInt 5 (-1)

/-- The low six bits are 000001, where the instruction set asks for ones. -/
def opNOT (dr sr : Reg) : Word := opcodeNOT ++ dr ++ sr ++ 1#6

def opBR (condition : BitVec 3) (pcOffset9 : Int) : Word :=
  opcodeBR ++ condition ++ BitVec.ofInt 9 pcOffset9

def opJMP (baseR : Reg) : Word := opcodeJMP ++ 0#3 ++ baseR ++ 0#6

def opRET : Word := opcodeJMP ++ 0#3 ++ r7 ++ 0#6

def opJSR (pcOffset11 : Int) : Word := opcodeJSR ++ 1#1 ++ BitVec.ofInt 11 pcOffset11

def opLDR (dr baseR : Reg) (offset6 : Int) : Word := opcodeLDR ++ dr ++ baseR ++ BitVec.ofInt 6 offset6

def opSTR (sr baseR : Reg) (offset6 : Int) : Word := opcodeSTR ++ sr ++ baseR ++ BitVec.ofInt 6 offset6

def opPSE (ledVect12 : BitVec 12) : Word := opcodePSE ++ ledVect12

end ECE385.SLC3.Assembler
