import ECE385.UsbHost.Frames
import ECE385.UsbHost.Receive

namespace ECE385.UsbHost.Stages

open Dispatch (Dispatched Done)
open Imperative.Chunks Imperative.Program
open MAX3421E Records Transfer Receive

/-- The token of the status stage goes the other way than the data. -/
def statusToken (direction : Bool) : Byte := if direction then tokOUTHS else tokINHS

/-- What goes over the bus in a control transfer, with its result and the data: the
setup stage, the data stage if there is one, and the status stage, each only when the
one before has succeeded. -/
inductive Control (ep : Byte) (nbytes : Nat) (maxpktsize : Nat) (direction dataptr : Bool) :
    List Transaction → Byte → List Byte → Prop
  | setupFailed (log : List Transaction) (rcode : Byte) (h : Dispatched (tokSETUP ||| ep) log rcode)
      (hne : rcode ≠ 0) : Control ep nbytes maxpktsize direction dataptr log rcode []
  | noData (setup status : List Transaction) (rcode : Byte) (hdata : dataptr = false)
      (h : Dispatched (tokSETUP ||| ep) setup 0) (h' : Dispatched (statusToken direction ||| ep) status rcode) :
      Control ep nbytes maxpktsize direction dataptr (setup ++ status) rcode []
  | notImplemented (setup : List Transaction) (hdata : dataptr = true) (hout : direction = false)
      (h : Dispatched (tokSETUP ||| ep) setup 0) : Control ep nbytes maxpktsize direction dataptr setup 0xff []
  | dataFailed (setup data : List Transaction) (rcode : Byte) (ps : List (List Byte)) (hdata : dataptr = true)
      (hin : direction = true) (h : Dispatched (tokSETUP ||| ep) setup 0) (h' : Exchange (tokIN ||| ep) data ps)
      (hne : rcode ≠ 0) : Control ep nbytes maxpktsize direction dataptr (setup ++ data) rcode ps.flatten
  | complete (setup data status : List Transaction) (rcode : Byte) (ps : List (List Byte)) (p : List Byte)
      (hdata : dataptr = true) (hin : direction = true) (h : Dispatched (tokSETUP ||| ep) setup 0)
      (h' : Exchange (tokIN ||| ep) data (ps ++ [p])) (hstopped : Stopped nbytes maxpktsize ps p)
      (h'' : Dispatched (statusToken direction ||| ep) status rcode) :
      Control ep nbytes maxpktsize direction dataptr (setup ++ data ++ status) rcode (ps ++ [p]).flatten

section Control

variable {σ : Type} (c : Chip σ) (fuel : Nat) (addr ep : Byte) (tbl : EpTable) (nbytes : Word)
  (s : System (σ × List Transaction))

/-- The size that the endpoint takes, in a byte as XferInTransfer is given it. -/
def pktSize (d : Driver) : Byte := (d.ep tbl ep.toNat).maxPktSize.setWidth 8

/-- The data stage starts with DATA1. -/
def expecting : System (σ × List Transaction) :=
  { s with driver := s.driver.setEp tbl ep.toNat { s.driver.ep tbl ep.toNat with rcvToggle := bmRCVTOG1 } }

def filled (pkt : List Byte) : System (σ × List Transaction) :=
  { s with chip := c.logged.bytesWr rSUDFIFO pkt (c.logged.regWr rPERADDR addr s.chip) }

/-- The states in which XferCtrlData dispatches its packets. -/
inductive DataDispatches (room : Nat) : Byte → System (σ × List Transaction) → Prop
  | data (token : Byte) (t : System (σ × List Transaction))
      (h : Asks c fuel addr ep nbytes room (pktSize ep tbl s.driver) (expecting ep tbl s) tbl token t) :
      DataDispatches room token t
  | status (bytes : List Byte) (t : System (σ × List Transaction))
      (h : xferInTransfer c.logged fuel addr ep nbytes room (pktSize ep tbl s.driver) (expecting ep tbl s) =
        .ok ((0, bytes), t)) : DataDispatches room tokOUTHS t

/-- The states in which XferCtrlReq dispatches its packets. -/
inductive Dispatches (pkt : List Byte) (direction : Bool) (dataptr : Option Nat) :
    Byte → System (σ × List Transaction) → Prop
  | setup : Dispatches pkt direction dataptr tokSETUP (filled c addr s pkt)
  | noData (t : System (σ × List Transaction)) (hdata : dataptr = none)
      (h : xferDispatchPkt c.logged fuel tokSETUP ep (filled c addr s pkt) = .ok (0, t)) :
      Dispatches pkt direction dataptr (statusToken direction) t
  | data (room : Nat) (token : Byte) (t u : System (σ × List Transaction)) (hdata : dataptr = some room)
      (hin : direction = true) (h : xferDispatchPkt c.logged fuel tokSETUP ep (filled c addr s pkt) = .ok (0, t))
      (h' : DataDispatches c fuel addr ep tbl nbytes t room token u) : Dispatches pkt direction dataptr token u

variable {c fuel addr ep tbl nbytes s}

variable (hbytes : nbytes.toNat < fuel) (hnbytes : nbytes.toNat + 255 ≤ 65536) (hep : s.driver.Has addr ep tbl)

include hbytes hnbytes hep

end Control

end ECE385.UsbHost.Stages
