import ECE385.Imperative.Chunks
import ECE385.UsbHost.Dispatch
import ECE385.UsbHost.UsbTask

namespace ECE385.UsbHost.Receive

open Dispatch (Done launched steady xferDispatchPkt_done)
open Imperative.Chunks
open Imperative.Program
open MAX3421E Records Transfer

/-- The packets that have been taken out of RCVFIFO. -/
def packets (log : List Transaction) : List (List Byte) :=
  log.filterMap fun
    | .received data => some data
    | _ => none

/-- A piece of the record: some launches of one packet, and what was received. -/
structure Exchange (packet : Byte) (log : List Transaction) (ps : List (List Byte)) : Prop where
  received : packets log = ps
  launched : ∀ p ∈ launched log, p = packet

section Exchange

variable {packet rcode : Byte} {log log' : List Transaction} {ps ps' : List (List Byte)}

theorem Exchange.nil (packet : Byte) : Exchange packet [] [] := ⟨rfl, fun _ h => absurd h List.not_mem_nil⟩

theorem Exchange.append (h : Exchange packet log ps) (h' : Exchange packet log' ps') :
    Exchange packet (log ++ log') (ps ++ ps') := by
  refine ⟨?_, fun p hp => ?_⟩
  · rw [packets, List.filterMap_append, ← packets, ← packets, h.received, h'.received]
  · rw [Dispatch.launched, List.filterMap_append] at hp
    exact (List.mem_append.mp hp).elim (h.launched p) (h'.launched p)

theorem Exchange.result (packet hrsl : Byte) : Exchange packet [.result hrsl] [] :=
  ⟨rfl, fun _ h => absurd h List.not_mem_nil⟩

end Exchange

section Transfer

variable {σ : Type} (c : Chip σ) (fuel : Nat) (addr ep : Byte) (nbytes : Word) (room : Nat) (maxpktsize : Byte)
  (s : System (σ × List Transaction))

/-- How a request may stop short: a packet that it dispatches has no end, or a buffer is
too small. -/
def Cut (Dispatches : Byte → System (σ × List Transaction) → Prop) (small : Prop) : Stop Fault → Prop
  | .fuel => ∃ token t, Dispatches token t ∧ xferDispatchPkt c.logged fuel token ep t = .error .fuel
  | .overrun => small
  | .error _ => False

/-- The states in which the transfer dispatches its packets. -/
def Asks (tbl : EpTable) (token : Byte) (t : System (σ × List Transaction)) : Prop :=
  token = tokIN ∧ ∃ b, Comes (receive c.logged fuel addr ep nbytes room maxpktsize) (0, [])
    { s with chip := c.logged.regWr rHCTL (s.driver.ep tbl ep.toNat).rcvToggle s.chip } b t

/-- After the packets `ps` the transfer goes on. -/
structure Receiving (b : Word × List Byte) (t : System (σ × List Transaction)) (ps : List (List Byte)) : Prop where
  driver : t.driver = s.driver
  log : ∃ log, t.chip.2 = s.chip.2 ++ log ∧ Exchange (tokIN ||| ep) log ps
  data : b.2 = ps.flatten
  xfrlen : b.1.toNat = ps.flatten.length
  ongoing : Ongoing nbytes.toNat maxpktsize.toNat ps

variable {c fuel addr ep nbytes room maxpktsize s}

section Cut

variable {Dispatches : Byte → System (σ × List Transaction) → Prop} {small : Prop}

theorem Cut.mono {Dispatches' : Byte → System (σ × List Transaction) → Prop} {small' : Prop}
    (hdispatches : ∀ token t, Dispatches token t → Dispatches' token t) (hsmall : small → small') (e : Stop Fault)
    (h : Cut c fuel ep Dispatches small e) : Cut c fuel ep Dispatches' small' e := by
  cases e with
  | fuel =>
      obtain ⟨token, t, ht, hrun⟩ := h
      exact ⟨token, t, hdispatches token t ht, hrun⟩
  | overrun => exact hsmall h
  | error e => exact h

end Cut

theorem Receiving.start (chip : σ) :
    Receiving ep nbytes maxpktsize s (0, []) { s with chip := (chip, s.chip.2) } [] :=
  ⟨rfl, ⟨[], (List.append_nil _).symm, .nil _⟩, rfl, rfl, .nil⟩

end Transfer

end ECE385.UsbHost.Receive
