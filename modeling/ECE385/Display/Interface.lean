import ECE385.Clocked.ByteLanes
import ECE385.Clocked.Machine

namespace ECE385.Display.Interface

open Clocked.ByteLanes

structure Rgb where
  red : BitVec 4
  green : BitVec 4
  blue : BitVec 4
  deriving DecidableEq

/-- The Avalon pins at an edge of CLK, and what the two outputs of the RAM show
where a read meets a write and its datasheet leaves them open. -/
structure Bus where
  read : Bool
  write : Bool
  cs : Bool
  byteEn : BitVec 4
  addr : BitVec 12
  writedata : BitVec 32
  openA : BitVec 32
  openB : BitVec 32

def Bus.wren (b : Bus) : Bool := b.write && b.cs
def Bus.rden (b : Bus) : Bool := b.read && b.cs

def Bus.data (b : Bus) : Write 12 := ⟨b.addr, b.byteEn, b.writedata⟩

structure State where
  mem : BitVec 12 → BitVec 32
  readdata : BitVec 32
  vgaReaddata : BitVec 32
  localReg : BitVec 3 → BitVec 32
  clkdiv : Bool
  hc : BitVec 10
  vc : BitVec 10
  rgb : Rgb

section Pixel

def charX (drawX : BitVec 10) : BitVec 7 := drawX.extractLsb' 3 7
def charY (drawY : BitVec 10) : BitVec 6 := drawY.extractLsb' 4 6

def charIdx (drawX drawY : BitVec 10) : BitVec 12 :=
  BitVec.ofNat 12 (80 * (charY drawY).toNat + (charX drawX).toNat)

def vgaAddr (drawX drawY : BitVec 10) : BitVec 11 := (charIdx drawX drawY).extractLsb' 1 11

def curChar (charIdx : BitVec 12) (vgaReaddata : BitVec 32) : BitVec 8 :=
  if charIdx.getLsbD 0 then vgaReaddata.extractLsb' 24 8 else vgaReaddata.extractLsb' 8 8

def fgdIdx (charIdx : BitVec 12) (vgaReaddata : BitVec 32) : BitVec 4 :=
  if charIdx.getLsbD 0 then vgaReaddata.extractLsb' 20 4 else vgaReaddata.extractLsb' 4 4

def bkdIdx (charIdx : BitVec 12) (vgaReaddata : BitVec 32) : BitVec 4 :=
  if charIdx.getLsbD 0 then vgaReaddata.extractLsb' 16 4 else vgaReaddata.extractLsb' 0 4

def fontAddr (curChar : BitVec 8) (drawY : BitVec 10) : BitVec 11 :=
  BitVec.ofNat 11 (16 * (curChar.extractLsb' 0 7).toNat + (drawY.extractLsb' 0 4).toNat)

def entry (localReg : BitVec 3 → BitVec 32) (idx : BitVec 4) : Rgb :=
  let word := localReg (idx.extractLsb' 1 3)
  if idx.getLsbD 0 then ⟨word.extractLsb' 21 4, word.extractLsb' 17 4, word.extractLsb' 13 4⟩
  else ⟨word.extractLsb' 9 4, word.extractLsb' 5 4, word.extractLsb' 1 4⟩

def fgd (localReg : BitVec 3 → BitVec 32) (fgdIdx : BitVec 4) : Rgb := entry localReg fgdIdx
def bkd (localReg : BitVec 3 → BitVec 32) (bkdIdx : BitVec 4) : Rgb := entry localReg bkdIdx

/-- The colour that an edge of the pixel clock takes for the position, with the
word that the RAM shows for it. -/
def pixel (fontRom : BitVec 11 → BitVec 8) (localReg : BitVec 3 → BitVec 32) (vgaReaddata : BitVec 32)
    (drawX drawY : BitVec 10) : Rgb :=
  let idx := charIdx drawX drawY
  let cur := curChar idx vgaReaddata
  let fontData := fontRom (fontAddr cur drawY)
  let on := fontData.getLsbD (7 - (drawX.extractLsb' 0 3).toNat)
  let inverse := cur.getLsbD 7
  let display := !(640 ≤ drawX.toNat || 480 ≤ drawY.toNat)
  if !display then ⟨0, 0, 0⟩
  else if on && !inverse then fgd localReg (fgdIdx idx vgaReaddata)
  else if on && inverse then bkd localReg (bkdIdx idx vgaReaddata)
  else if !on && inverse then fgd localReg (fgdIdx idx vgaReaddata)
  else bkd localReg (bkdIdx idx vgaReaddata)

end Pixel

section Edge

variable (fontRom : BitVec 11 → BitVec 8)

def hpixels : BitVec 10 := 0b1100011111
def vlines : BitVec 10 := 0b1000001100

def nextHc (hc : BitVec 10) : BitVec 10 := if hc = hpixels then 0 else hc + 1

def nextVc (hc vc : BitVec 10) : BitVec 10 :=
  if hc = hpixels then if vc = vlines then 0 else vc + 1 else vc

/-- An edge of CLK with RESET low. The counters and the colour move on the rising
edges of the divided clock. -/
def State.edge (b : Bus) (s : State) : State :=
  let address := (vgaAddr s.hc s.vc).zeroExtend 12
  let rising := !s.clkdiv
  { mem := if b.wren then b.data.apply s.mem else s.mem
    readdata :=
      if b.rden then if b.wren then merge b.byteEn b.openA b.writedata else s.mem b.addr
      else s.readdata
    vgaReaddata := if b.wren ∧ b.addr = address then b.openB else s.mem address
    localReg :=
      if b.wren && b.addr.getLsbD 11 then Function.update s.localReg (b.addr.extractLsb' 0 3) b.writedata
      else s.localReg
    clkdiv := !s.clkdiv
    hc := if rising then nextHc s.hc else s.hc
    vc := if rising then nextVc s.hc s.vc else s.vc
    rgb := if rising then pixel fontRom s.localReg s.vgaReaddata s.hc s.vc else s.rgb }

def State.reset (s : State) : State := { s with clkdiv := false, hc := 0, vc := 0 }

abbrev run (x : Nat → Bus) (s : State) (n : Nat) : State := Clocked.Machine.run (State.edge fontRom) x s n

end Edge

end ECE385.Display.Interface
