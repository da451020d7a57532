import ECE385.UsbHost.Hid

namespace ECE385.UsbHost.UsbTask

open MAX3421E Records Transfer Hid
open Imperative.Program

def usbStateMask : Byte := 0xf0
def usbStateDetached : Byte := 0x00
def detachedInitialize : Byte := 0x01
def detachedWaitForDevice : Byte := 0x03
def detachedIllegal : Byte := 0x04
def usbStateAttached : Byte := 0x10
def attachedSettle : Byte := 0x11
def attachedResetDevice : Byte := 0x12
def attachedWaitResetComplete : Byte := 0x13
def attachedWaitSof : Byte := 0x14
def attachedGetDeviceDescriptorSize : Byte := 0x15
def usbStateAddressing : Byte := 0x20
def usbStateConfiguring : Byte := 0x30
def usbStateRunning : Byte := 0x40
def usbStateError : Byte := 0xff

def initDriver (d : Driver) : Driver :=
  { d with
    devtable := fun i => ⟨if i = 0 then some .dev0ep else none, 0⟩
    dev0ep := { d.dev0ep with maxPktSize := 0, sndToggle := bmSNDTOG0, rcvToggle := bmRCVTOG0 } }

section Task

variable {σ : Type} (c : Chip σ) (fuel : Nat)

def setTaskState (state : Byte) : Code σ Unit := onDriver fun d => { d with usbTaskState := state }

def setError (error : Byte) : Code σ Unit :=
  onDriver fun d => { d with usbError := error, lastUsbTaskState := d.usbTaskState, usbTaskState := usbStateError }

def usbInit : Code σ Unit := onDriver initDriver

def detachedTask (state : Byte) : Code σ Unit :=
  if state = detachedInitialize then do
    usbInit
    setTaskState detachedWaitForDevice
  else if state = detachedWaitForDevice then regWr c rHCTL bmSAMPLEBUS
  else pure ()

/-- ConvUTF8ToStr on the 254 bytes behind the header of a string descriptor, as far as
it matters to what follows: its last store is at `length`. -/
def convUTF8ToStr (length : Byte) : Code σ Unit := doIf (254 ≤ length.toNat) (throw .overrun)

/-- A string descriptor is read for its length and then as a whole, to be printed. -/
def getStrDescr (index : Byte) : Code σ Unit := do
  let stale ← onChip c.stale
  let (_, data) ← xferGetStrDescr c fuel 0 0 2 index langENUS 256
  let strDesc := stored data (uninitialised 256 stale)
  let (_, data) ← xferGetStrDescr c fuel 0 0 ((offset strDesc 0).setWidth 16) index langENUS 256
  convUTF8ToStr ((offset (stored data strDesc) 0 >>> 1) - 1)

def getDeviceDescriptor : Code σ Unit := do
  modifyEndpoint 0 0 fun r => { r with maxPktSize := 0x0008 }
  let stale ← onChip c.stale
  let (rcode, data) ← xferGetDevDescr c fuel 0 0 8 18
  let buf := stored data (uninitialised 18 stale)
  if rcode = 0 then
    modifyEndpoint 0 0 fun r => { r with maxPktSize := (offset buf 7).setWidth 16 }
    let (_, data) ← xferGetDevDescr c fuel 0 0 ((offset buf 0).setWidth 16) 18
    let buf := stored data buf
    doIf (offset buf 14 ≠ 0) (getStrDescr c fuel (offset buf 14))
    doIf (offset buf 15 ≠ 0) (getStrDescr c fuel (offset buf 15))
    setTaskState usbStateAddressing
  else setError rcode

def attachedTask (state : Byte) : Code σ Unit :=
  if state = usbStateAttached then do
    let now ← milliseconds c
    onDriver fun d => { d with usbDelay := now + 200 }
    setTaskState attachedSettle
  else if state = attachedSettle then do
    let now ← milliseconds c
    let s ← get
    doIf (s.driver.usbDelay < now) (setTaskState attachedResetDevice)
  else if state = attachedResetDevice then do
    regWr c rHIRQ bmBUSEVENTIRQ
    regWr c rHCTL bmBUSRST
    setTaskState attachedWaitResetComplete
  else if state = attachedWaitResetComplete then do
    let hctl ← regRd c rHCTL
    doIf (hctl &&& bmBUSRST = 0) do
      let mode ← regRd c rMODE
      regWr c rMODE (mode ||| bmSOFKAENAB)
      setTaskState attachedWaitSof
  else if state = attachedWaitSof then do
    let hirq ← regRd c rHIRQ
    -- an OR where an AND was meant, so this does not wait
    doIf (hirq ||| bmFRAMEIRQ ≠ 0) (setTaskState attachedGetDeviceDescriptorSize)
  else if state = attachedGetDeviceDescriptorSize then getDeviceDescriptor c fuel
  else pure ()

def addresses : List Byte := [1, 2, 3, 4, 5, 6, 7]

def freeAddress (d : Driver) : Option Byte := addresses.find? fun i => (d.devtable i.toNat).epinfo.isNone

def assign (i : Byte) : Code σ Unit := do
  onDriver fun d => { d with
    devtable := Function.update d.devtable i.toNat { d.devtable i.toNat with epinfo := (d.devtable 0).epinfo } }
  let rcode ← xferSetAddr c fuel 0 0 i
  if rcode = 0 then
    onDriver fun d => { d with tmpAddr := i }
    setTaskState usbStateConfiguring
  else setError rcode

/-- The loop over the addresses. -/
def assignFree : Code σ Unit := do
  let s ← get
  match freeAddress s.driver with
  | some i => assign c fuel i
  | none => pure ()

def addressingTask : Code σ Unit := do
  assignFree c fuel
  let s ← get
  doIf (s.driver.usbTaskState = usbStateAddressing) (setError 0xfe)

def probeAll (addr : Byte) : List (Byte → Code σ Bool) → Code σ Unit
  | [] => pure ()
  | probe :: probes => do
      let found ← probe addr
      if found then setTaskState usbStateRunning else probeAll addr probes

def configuringTask : Code σ Unit := do
  let s ← get
  probeAll s.driver.tmpAddr (clientDriverTable c fuel)
  let s ← get
  doIf (s.driver.usbTaskState = usbStateConfiguring) (setError 0xfd)

def usbTask : Code σ Unit := do
  let s ← get
  let state := s.driver.usbTaskState
  if state &&& usbStateMask = usbStateDetached then detachedTask c state
  else if state &&& usbStateMask = usbStateAttached then attachedTask c fuel state
  else if state &&& usbStateMask = usbStateAddressing then addressingTask c fuel
  else if state &&& usbStateMask = usbStateConfiguring then configuringTask c fuel
  else pure ()

/-- A device is there. The host starts with one mode or the other by the speed it
was set to. A bus reset of its own is not taken for a new connection. -/
def startHost (fast slow : Byte) : Code σ Unit := do
  let s ← get
  doIf (s.driver.usbTaskState ≠ attachedWaitResetComplete) do
    let mode ← regRd c rMODE
    regWr c rMODE (if mode &&& bmLOWSPEED = 0 then fast else slow)
    setTaskState usbStateAttached

def maxBusprobe : Code σ Unit := do
  let hrsl ← regRd c rHRSL
  let busSample := hrsl &&& (bmJSTATUS ||| bmKSTATUS)
  if busSample = bmJSTATUS then startHost c modeFSHOST modeLSHOST
  else if busSample = bmKSTATUS then startHost c modeLSHOST modeFSHOST
  else if busSample = bmSE1 then setTaskState detachedIllegal
  else
    -- bmSE0, as nothing else is left
    let s ← get
    if s.driver.usbTaskState &&& usbStateMask ≠ usbStateDetached then setTaskState detachedInitialize
    else
      regWr c rMODE modeFSHOST
      setTaskState detachedWaitForDevice

def max3421EReset : Code σ Unit := do
  onChip fun s => ((), c.usbRst false s)
  onChip fun s => ((), c.usbRst true s)
  regWr c rUSBCTL bmCHIPRES
  regWr c rUSBCTL 0x00
  loop (fun _ : Unit => do
    let usbirq ← regRd c rUSBIRQ
    if usbirq &&& bmOSCOKIRQ ≠ 0 then pure (.inr ()) else pure (.inl ())) fuel ()

def max3421EInit : Code σ Unit := do
  regWr c rPINCTL (bmFDUPSPI + bmINTLEVEL + bmGPXB)
  max3421EReset c fuel
  regWr c rGPINIEN bmGPINIEN7
  regWr c rMODE (bmDPPULLDN ||| bmDMPULLDN ||| bmHOST ||| bmSEPIRQ)
  regWr c rHIEN bmCONDETIE
  regWr c rHCTL bmSAMPLEBUS
  maxBusprobe c
  regWr c rHIRQ bmCONDETIRQ
  regWr c rCPUCTL 0x01

def maxIntHandler : Code σ Unit := do
  let hirq ← regRd c rHIRQ
  doIf (hirq &&& bmCONDETIRQ ≠ 0) (maxBusprobe c)
  doIf (hirq &&& bmSNDBAVIRQ ≠ 0) (regWr c rSNDBC 0x00)
  doIf (hirq &&& bmBUSEVENTIRQ ≠ 0) (onDriver fun d => { d with usbTaskState := d.usbTaskState + 1 })
  regWr c rHIRQ (hirq &&& (bmFRAMEIRQ ||| bmCONDETIRQ ||| bmBUSEVENTIRQ))

def maxGpxHandler : Code σ Unit := do
  let _ ← regRd c rGPINIRQ

def max3421ETask : Code σ Unit := do
  let irq ← onChip c.irq
  doIf (irq = true) (maxIntHandler c)
  let gpx ← onChip c.gpx
  doIf (gpx = true) (maxGpxHandler c)

end Task

end ECE385.UsbHost.UsbTask
