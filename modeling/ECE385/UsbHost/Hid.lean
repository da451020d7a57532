import ECE385.UsbHost.Transfer

namespace ECE385.UsbHost.Hid

open MAX3421E Records Transfer
open Imperative.Program

def descriptorInterface : Byte := 0x04
def descriptorEndpoint : Byte := 0x05
def hidIntf : Byte := 0x03
def bootIntfSubclass : Byte := 0x01
def hidProtocolKeyboard : Byte := 0x01
def hidProtocolMouse : Byte := 0x02
def bootProtocol : Byte := 0x00
def confDescrLen : Word := 9

/-- Steps from descriptor to descriptor, up to one of type `kind`. -/
def skipTo (buf : Nat → Byte) (totalLength : Nat) (kind : Byte) : Nat → Nat → Option (Option Nat)
  | 0, _ => none
  | fuel + 1, pos =>
      if pos < totalLength then
        if buf (pos + 1) = kind then some (some pos)
        else skipTo buf totalLength kind fuel (pos + (buf pos).toNat)
      else some none

/-- The 16-bit field at an offset, low byte first. -/
def wordAt (buf : Nat → Byte) (pos : Nat) : Word := buf (pos + 1) ++ buf pos

def epFromDescr (buf : Nat → Byte) (pos : Nat) (r : EpRecord) : EpRecord :=
  { r with
    epAddr := buf (pos + 2)
    attr := buf (pos + 3)
    maxPktSize := wordAt buf (pos + 4)
    interval := buf (pos + 6) }

section Probe

variable {σ : Type} (c : Chip σ) (fuel : Nat)

/-- HID_init: the toggles of the second endpoint. -/
def hidInit : Code σ Unit :=
  onDriver fun d => { d with
    hidEp := Function.update d.hidEp (Fin.last 1)
      { d.hidEp (Fin.last 1) with sndToggle := bmSNDTOG0, rcvToggle := bmRCVTOG0 } }

def search (totalLength : Nat) (kind : Byte) (pos : Nat) : Code σ (Option Nat) := do
  let s ← get
  match skipTo s.driver.byteAt totalLength kind fuel pos with
  | some r => pure r
  | none => throw .fuel

def bigbufAt (pos : Nat) : Code σ Byte := do
  let s ← get
  pure (s.driver.byteAt pos)

def getConfDescr (addr : Byte) (nbytes : Word) : Code σ Byte := do
  let (rcode, data) ← xferGetConfDescr c fuel addr 0 nbytes 0 256
  onDriver fun d => { d with bigbuf := stored data d.bigbuf }
  pure rcode

/-- The device gets the endpoints of HID.c; the packet size of its control
endpoint goes along. -/
def takeDevice (addr devclass : Byte) (pos : Nat) : Code σ Unit := do
  onDriver fun d =>
    { d with devtable := Function.update d.devtable addr.toNat { d.devtable addr.toNat with devclass := devclass } }
  let r ← endpoint addr 0
  let tmpbyte : Byte := r.maxPktSize.setWidth 8
  hidInit
  onDriver fun d =>
    { d with devtable := Function.update d.devtable addr.toNat { d.devtable addr.toNat with epinfo := some .hidEp } }
  modifyEndpoint addr 0 fun r => { r with maxPktSize := tmpbyte.setWidth 16 }
  let number ← bigbufAt (pos + 2)
  onDriver fun d => { d with hidInterface := number, hidAddr := addr }

def configure (addr confvalue : Byte) (pos : Nat) : Code σ Bool := do
  let s ← get
  modifyEndpoint addr 1 (epFromDescr s.driver.byteAt pos)
  let rcode ← xferSetConf c fuel addr 0 confvalue
  if rcode ≠ 0 then pure false
  else
    let s ← get
    let rcode ← xferSetProto c fuel addr 0 s.driver.hidInterface bootProtocol
    if rcode ≠ 0 then pure false else pure true

def parse (addr protocol devclass : Byte) (totalLength : Nat) : Code σ Bool := do
  let confvalue ← bigbufAt 5
  let interface ← search fuel totalLength descriptorInterface 0
  match interface with
  | none => pure false
  | some pos =>
    let cls ← bigbufAt (pos + 5)
    let subclass ← bigbufAt (pos + 6)
    let prot ← bigbufAt (pos + 7)
    if cls = hidIntf ∧ subclass = bootIntfSubclass ∧ prot = protocol then
      takeDevice addr devclass pos
      let length ← bigbufAt pos
      let ep ← search fuel totalLength descriptorEndpoint (pos + length.toNat)
      match ep with
      | none => pure false
      | some pos => configure c fuel addr confvalue pos
    else pure false

/-- HIDMProbe and HIDKProbe, which differ in the protocol that they look for and
in the class that they enter. -/
def hidProbe (protocol devclass addr : Byte) : Code σ Bool := do
  let rcode ← getConfDescr c fuel addr confDescrLen
  if rcode ≠ 0 then pure false
  else
    let s ← get
    let wTotalLength := wordAt s.driver.byteAt 2
    let totalLength : Word := if wTotalLength > 256 then 256 else wTotalLength
    let rcode ← getConfDescr c fuel addr totalLength
    if rcode ≠ 0 then pure false else parse c fuel addr protocol devclass totalLength.toNat

def hidMProbe (addr : Byte) : Code σ Bool := hidProbe c fuel hidProtocolMouse hidM addr

def hidKProbe (addr : Byte) : Code σ Bool := hidProbe c fuel hidProtocolKeyboard hidK addr

def msdProbe (_addr : Byte) : Code σ Bool := pure false

def dummyProbe (_addr : Byte) : Code σ Bool := pure false

/-- The Initialize functions of the client driver table. -/
def clientDriverTable : List (Byte → Code σ Bool) := [msdProbe, hidMProbe c fuel, hidKProbe c fuel, dummyProbe]

/-- mousePoll and kbdPoll: the code is the same, and so is the size of the reports. -/
def poll : Code σ (Byte × List Byte) := do
  let s ← get
  let addr := s.driver.hidAddr
  regWr c rPERADDR addr
  let r ← endpoint addr 1
  xferInTransfer c fuel addr 1 8 8 (r.maxPktSize.setWidth 8)

def mousePoll : Code σ (Byte × List Byte) := poll c fuel

def kbdPoll : Code σ (Byte × List Byte) := poll c fuel

end Probe

end ECE385.UsbHost.Hid
