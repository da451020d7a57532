import Mathlib.Data.BitVec
import Mathlib.Data.Vector.Defs
import ECE385.Imperative.Program

namespace ECE385.UsbHost.MAX3421E

abbrev Byte := BitVec 8
abbrev Word := BitVec 16
abbrev DWord := BitVec 32

def rRCVFIFO : Byte := 0x08
def rSUDFIFO : Byte := 0x20
def rRCVBC : Byte := 0x30
def rSNDBC : Byte := 0x38
def rUSBIRQ : Byte := 0x68
def bmOSCOKIRQ : Byte := 0x01
def rUSBCTL : Byte := 0x78
def bmCHIPRES : Byte := 0x20
def rCPUCTL : Byte := 0x80
def rPINCTL : Byte := 0x88
def bmFDUPSPI : Byte := 0x10
def bmINTLEVEL : Byte := 0x08
def bmGPXB : Byte := 0x02
def rGPINIRQ : Byte := 0xb0
def rGPINIEN : Byte := 0xb8
def bmGPINIEN7 : Byte := 0x80
def rHIRQ : Byte := 0xc8
def bmBUSEVENTIRQ : Byte := 0x01
def bmRCVDAVIRQ : Byte := 0x04
def bmSNDBAVIRQ : Byte := 0x08
def bmCONDETIRQ : Byte := 0x20
def bmFRAMEIRQ : Byte := 0x40
def bmHXFRDNIRQ : Byte := 0x80
def rHIEN : Byte := 0xd0
def bmCONDETIE : Byte := 0x20
def rMODE : Byte := 0xd8
def bmHOST : Byte := 0x01
def bmLOWSPEED : Byte := 0x02
def bmSOFKAENAB : Byte := 0x08
def bmSEPIRQ : Byte := 0x10
def bmDMPULLDN : Byte := 0x40
def bmDPPULLDN : Byte := 0x80
def rPERADDR : Byte := 0xe0
def rHCTL : Byte := 0xe8
def bmBUSRST : Byte := 0x01
def bmSAMPLEBUS : Byte := 0x04
def bmRCVTOG0 : Byte := 0x10
def bmRCVTOG1 : Byte := 0x20
def bmSNDTOG0 : Byte := 0x40
def rHXFR : Byte := 0xf0
def tokSETUP : Byte := 0x10
def tokIN : Byte := 0x00
def tokINHS : Byte := 0x80
def tokOUTHS : Byte := 0xa0
def rHRSL : Byte := 0xf8
def bmRCVTOGRD : Byte := 0x10
def bmKSTATUS : Byte := 0x40
def bmJSTATUS : Byte := 0x80
def bmSE0 : Byte := 0x00
def bmSE1 : Byte := 0xc0
def hrNAK : Byte := 0x04
def hrTIMEOUT : Byte := 0x0e
def modeFSHOST : Byte := bmDPPULLDN ||| bmDMPULLDN ||| bmHOST ||| bmSOFKAENAB
def modeLSHOST : Byte := bmDPPULLDN ||| bmDMPULLDN ||| bmHOST ||| bmLOWSPEED ||| bmSOFKAENAB

/-- The MAX3421E behind the four SPI functions, with its pins, the timer and what
uninitialised locals happen to hold. A read may change the state. -/
structure Chip (σ : Type) where
  regWr : Byte → Byte → σ → σ
  regRd : Byte → σ → Byte × σ
  bytesWr : Byte → List Byte → σ → σ
  bytesRd : Byte → (n : Nat) → σ → List.Vector Byte n × σ
  usbRst : Bool → σ → σ
  /-- USB_IRQ reads 0. -/
  irq : σ → Bool × σ
  /-- USB_GPX reads 1. -/
  gpx : σ → Bool × σ
  nticks : σ → DWord × σ
  ticksPerSecond : DWord
  stale : σ → (Nat → Byte) × σ

/-- What goes over the bus, as the chip is told and as it reports. -/
inductive Transaction
  | launch (packet : Byte)
  | result (hrsl : Byte)
  | received (data : List Byte)
  deriving DecidableEq

/-- The chip with a record of the transactions, the latest last. -/
def Chip.logged {σ : Type} (c : Chip σ) : Chip (σ × List Transaction) where
  regWr reg val s := (c.regWr reg val s.1, if reg = rHXFR then s.2 ++ [.launch val] else s.2)
  regRd reg s :=
    let r := c.regRd reg s.1
    (r.1, r.2, if reg = rHRSL then s.2 ++ [.result r.1] else s.2)
  bytesWr reg data s := (c.bytesWr reg data s.1, s.2)
  bytesRd reg n s :=
    let r := c.bytesRd reg n s.1
    (r.1, r.2, if reg = rRCVFIFO then s.2 ++ [.received r.1.toList] else s.2)
  usbRst level s := (c.usbRst level s.1, s.2)
  irq s := ((c.irq s.1).1, (c.irq s.1).2, s.2)
  gpx s := ((c.gpx s.1).1, (c.gpx s.1).2, s.2)
  nticks s := ((c.nticks s.1).1, (c.nticks s.1).2, s.2)
  ticksPerSecond := c.ticksPerSecond
  stale s := ((c.stale s.1).1, (c.stale s.1).2, s.2)

end ECE385.UsbHost.MAX3421E
