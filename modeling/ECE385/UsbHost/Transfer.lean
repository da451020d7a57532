import ECE385.UsbHost.Records

namespace ECE385.UsbHost.Transfer

open MAX3421E Records
open Imperative.Program

def usbXferTimeout : DWord := 5000
def usbNakLimit : Byte := 200
def usbRetryLimit : Byte := 3

section Packets

variable {σ : Type} (c : Chip σ) (fuel : Nat)

/-- Polls until the transfer is done, or until the deadline. -/
def waitDone (timeout : DWord) : Code σ Bool :=
  loop (fun _ : Unit => do
    let now ← milliseconds c
    if now < timeout then
      let tmpdata ← regRd c rHIRQ
      if tmpdata &&& bmHXFRDNIRQ ≠ 0 then
        regWr c rHIRQ bmHXFRDNIRQ
        pure (.inr true)
      else pure (.inl ())
    else pure (.inr false)) fuel ()

/-- One launch of the packet. The locals are nak_count and retry_count. -/
def launch (timeout : DWord) (token ep : Byte) (counts : Byte × Byte) : Code σ ((Byte × Byte) ⊕ Byte) := do
  regWr c rHXFR (token ||| ep)
  let done ← waitDone c fuel timeout
  if done then
    let hrsl ← regRd c rHRSL
    let rcode := hrsl &&& 0x0f
    if rcode = hrNAK then
      if counts.1 + 1 = usbNakLimit then pure (.inr rcode) else pure (.inl (counts.1 + 1, counts.2))
    else if rcode = hrTIMEOUT then
      if counts.2 + 1 = usbRetryLimit then pure (.inr rcode) else pure (.inl (counts.1, counts.2 + 1))
    else pure (.inr rcode)
  else pure (.inr 0xff)

def xferDispatchPkt (token ep : Byte) : Code σ Byte := do
  let now ← milliseconds c
  loop (launch c fuel (now + usbXferTimeout) token ep) fuel (0, 0)

/-- One packet of an IN transfer. The locals are xfrlen and the bytes stored so far.
`room` is the size of the buffer, which the source does not look at. -/
def receive (addr ep : Byte) (nbytes : Word) (room : Nat) (maxpktsize : Byte) (b : Word × List Byte) :
    Code σ ((Word × List Byte) ⊕ (Byte × List Byte)) := do
  let rcode ← xferDispatchPkt c fuel tokIN ep
  if rcode ≠ 0 then pure (.inr (rcode, b.2))
  else
    let hirq ← regRd c rHIRQ
    if hirq &&& bmRCVDAVIRQ = 0 then pure (.inr (0xf0, b.2))
    else
      let pktsize ← regRd c rRCVBC
      doIf (room < b.2.length + pktsize.toNat) (throw .overrun)
      let data ← bytesRd c rRCVFIFO pktsize.toNat
      regWr c rHIRQ bmRCVDAVIRQ
      let xfrlen := b.1 + pktsize.setWidth 16
      if pktsize < maxpktsize ∨ nbytes ≤ xfrlen then
        let hrsl ← regRd c rHRSL
        modifyEndpoint addr ep fun r =>
          { r with rcvToggle := if hrsl &&& bmRCVTOGRD ≠ 0 then bmRCVTOG1 else bmRCVTOG0 }
        pure (.inr (0, b.2 ++ data))
      else pure (.inl (xfrlen, b.2 ++ data))

/-- The result code and the bytes that the transfer has stored. -/
def xferInTransfer (addr ep : Byte) (nbytes : Word) (room : Nat) (maxpktsize : Byte) :
    Code σ (Byte × List Byte) := do
  let r ← endpoint addr ep
  regWr c rHCTL r.rcvToggle
  loop (receive c fuel addr ep nbytes room maxpktsize) fuel (0, [])

def xferCtrlData (addr ep : Byte) (nbytes : Word) (room : Nat) (direction : Bool) : Code σ (Byte × List Byte) := do
  if direction then
    modifyEndpoint addr ep fun r => { r with rcvToggle := bmRCVTOG1 }
    let r ← endpoint addr ep
    let (rcode, data) ← xferInTransfer c fuel addr ep nbytes room (r.maxPktSize.setWidth 8)
    if rcode ≠ 0 then pure (rcode, data)
    else
      let rcode ← xferDispatchPkt c fuel tokOUTHS ep
      pure (rcode, data)
  else pure (0xff, [])

def xferCtrlND (ep : Byte) (direction : Bool) : Code σ Byte :=
  if direction then xferDispatchPkt c fuel tokOUTHS ep else xferDispatchPkt c fuel tokINHS ep

/-- The eight bytes of a setup packet, words with their low byte first. -/
def setupPkt (bmReqType bRequest wValLo wValHi : Byte) (wInd nbytes : Word) : List Byte :=
  [bmReqType, bRequest, wValLo, wValHi, wInd.extractLsb' 0 8, wInd.extractLsb' 8 8, nbytes.extractLsb' 0 8,
    nbytes.extractLsb' 8 8]

/-- `dataptr` is the size of the buffer pointed to, if the pointer is not NULL. -/
def xferCtrlReq (addr ep bmReqType bRequest wValLo wValHi : Byte) (wInd nbytes : Word) (dataptr : Option Nat) :
    Code σ (Byte × List Byte) := do
  regWr c rPERADDR addr
  let direction := decide (bmReqType &&& 0x80 ≠ 0)
  bytesWr c rSUDFIFO (setupPkt bmReqType bRequest wValLo wValHi wInd nbytes)
  let rcode ← xferDispatchPkt c fuel tokSETUP ep
  if rcode ≠ 0 then pure (rcode, [])
  else
    match dataptr with
    | some room => xferCtrlData c fuel addr ep nbytes room direction
    | none =>
        let rcode ← xferCtrlND c fuel ep direction
        pure (rcode, [])

end Packets

def bmREQGETDESCR : Byte := 0x80
def bmREQSET : Byte := 0x00
def bmREQHIDOUT : Byte := 0x21
def bmREQHIDIN : Byte := 0xa1
def langENUS : Word := 0x0409

section Requests

variable {σ : Type} (c : Chip σ) (fuel : Nat)

def xferSetAddr (oldaddr ep newaddr : Byte) : Code σ Byte :=
  Prod.fst <$> xferCtrlReq c fuel oldaddr ep bmREQSET 5 newaddr 0x00 0x0000 0x0000 none

def xferSetConf (addr ep confValue : Byte) : Code σ Byte :=
  Prod.fst <$> xferCtrlReq c fuel addr ep bmREQSET 9 confValue 0x00 0x0000 0x0000 none

def xferGetDevDescr (addr ep : Byte) (nbytes : Word) (room : Nat) : Code σ (Byte × List Byte) :=
  xferCtrlReq c fuel addr ep bmREQGETDESCR 6 0x00 0x01 0x0000 nbytes (some room)

def xferGetConfDescr (addr ep : Byte) (nbytes : Word) (conf : Byte) (room : Nat) : Code σ (Byte × List Byte) :=
  xferCtrlReq c fuel addr ep bmREQGETDESCR 6 conf 0x02 0x0000 nbytes (some room)

def xferGetStrDescr (addr ep : Byte) (nbytes : Word) (index : Byte) (langid : Word) (room : Nat) :
    Code σ (Byte × List Byte) :=
  xferCtrlReq c fuel addr ep bmREQGETDESCR 6 index 0x03 langid nbytes (some room)

def xferSetProto (addr ep interface protocol : Byte) : Code σ Byte :=
  Prod.fst <$> xferCtrlReq c fuel addr ep bmREQHIDOUT 0x0b protocol 0x00 (interface.setWidth 16) 0x0000 none

def xferGetProto (addr ep interface : Byte) (room : Nat) : Code σ (Byte × List Byte) :=
  xferCtrlReq c fuel addr ep bmREQHIDIN 0x03 0x00 0x00 (interface.setWidth 16) 0x0001 (some room)

def xferGetIdle (addr ep interface reportID : Byte) (room : Nat) : Code σ (Byte × List Byte) :=
  xferCtrlReq c fuel addr ep bmREQHIDIN 0x02 reportID 0 (interface.setWidth 16) 0x0001 (some room)

end Requests

/-- What a buffer holds after `data` has been stored at its start. -/
def stored {n : Nat} (data : List Byte) (buf : Fin n → Byte) : Fin n → Byte := fun i => data.getD i (buf i)

/-- A local that has no value yet. -/
def uninitialised (n : Nat) (stale : Nat → Byte) : Fin n → Byte := fun i => stale i

def offset {n : Nat} (buf : Fin n → Byte) (i : Nat) : Byte := if h : i < n then buf ⟨i, h⟩ else 0

end ECE385.UsbHost.Transfer
