import Mathlib.Logic.Function.Basic
import ECE385.UsbHost.MAX3421E

namespace ECE385.UsbHost.Records

open MAX3421E
open Imperative.Program

structure EpRecord where
  epAddr : Byte
  attr : Byte
  maxPktSize : Word
  interval : Byte
  sndToggle : Byte
  rcvToggle : Byte

/-- The two tables of endpoints that a device record may point to. -/
inductive EpTable
  | dev0ep | hidEp
  deriving DecidableEq

structure DevRecord where
  epinfo : Option EpTable
  devclass : Byte

def hidK : Byte := 1
def hidM : Byte := 2
def usbNumDevices : Nat := 8

/-- The variables of transfer.c and HID.c. -/
structure Driver where
  usbTaskState : Byte
  usbError : Byte
  lastUsbTaskState : Byte
  usbDelay : DWord
  tmpAddr : Byte
  devtable : Nat → DevRecord
  dev0ep : EpRecord
  hidEp : Fin 2 → EpRecord
  hidInterface : Byte
  hidAddr : Byte
  bigbuf : Fin 256 → Byte
  /-- The bytes that follow, given the variables that are declared behind `bigbuf`. -/
  behind : Byte → Byte → (Fin 2 → EpRecord) → Nat → Byte

def Driver.initial : Driver where
  usbTaskState := 0x01
  usbError := 0
  lastUsbTaskState := 0
  usbDelay := 0
  tmpAddr := 0
  devtable _ := ⟨none, 0⟩
  dev0ep := ⟨0, 0, 0, 0, 0, 0⟩
  hidEp _ := ⟨0, 0, 0, 0, 0, 0⟩
  hidInterface := 0
  hidAddr := 0
  bigbuf _ := 0
  behind _ _ _ _ := 0

/-- `bigbuf[ i ]`. Nothing keeps the probes from reading behind its end. -/
def Driver.byteAt (d : Driver) (i : Nat) : Byte :=
  if h : i < 256 then d.bigbuf ⟨i, h⟩ else d.behind d.hidAddr d.hidInterface d.hidEp (i - 256)

structure System (σ : Type) where
  chip : σ
  driver : Driver

inductive Fault
  | nullPointer | outOfBounds
  deriving DecidableEq

abbrev Code (σ α : Type) := Prog Fault (System σ) α

def EpTable.size : EpTable → Nat
  | .dev0ep => 1
  | .hidEp => 2

def Driver.ep (d : Driver) : EpTable → Nat → EpRecord
  | .dev0ep, _ => d.dev0ep
  | .hidEp, i => d.hidEp (Fin.ofNat 2 i)

def Driver.setEp (d : Driver) (t : EpTable) (i : Nat) (r : EpRecord) : Driver :=
  match t with
  | .dev0ep => { d with dev0ep := r }
  | .hidEp => { d with hidEp := Function.update d.hidEp (Fin.ofNat 2 i) r }

/-- `devtable[ addr ].epinfo[ ep ]` is an entry of the table `t`. -/
structure Driver.Has (d : Driver) (addr ep : Byte) (t : EpTable) : Prop where
  device : addr.toNat ≤ usbNumDevices
  pointer : (d.devtable addr.toNat).epinfo = some t
  index : ep.toNat < t.size

theorem Driver.byteAt_congr {d d' : Driver} (h : d'.bigbuf = d.bigbuf) {i : Nat} (hi : i < 256) :
    d'.byteAt i = d.byteAt i := by
  rw [byteAt, byteAt, dif_pos hi, dif_pos hi, h]

section Code

variable {σ : Type} (c : Chip σ)

def onChip {α : Type} (f : σ → α × σ) : Code σ α :=
  modifyGet fun s => ((f s.chip).1, { s with chip := (f s.chip).2 })

def regWr (reg val : Byte) : Code σ Unit := onChip fun s => ((), c.regWr reg val s)

def regRd (reg : Byte) : Code σ Byte := onChip (c.regRd reg)

def bytesWr (reg : Byte) (data : List Byte) : Code σ Unit := onChip fun s => ((), c.bytesWr reg data s)

def bytesRd (reg : Byte) (n : Nat) : Code σ (List Byte) :=
  onChip fun s => ((c.bytesRd reg n s).1.toList, (c.bytesRd reg n s).2)

/-- `(alt_nticks()*1000)/alt_ticks_per_second()`. -/
def milliseconds : Code σ DWord :=
  onChip fun s => ((c.nticks s).1 * 1000 / c.ticksPerSecond, (c.nticks s).2)

def onDriver (f : Driver → Driver) : Code σ Unit := modify fun s => { s with driver := f s.driver }

/-- `devtable[ addr ].epinfo`, to be used as a pointer. -/
def epinfo (addr : Byte) : Code σ EpTable := do
  let s ← get
  if addr.toNat ≤ usbNumDevices then
    match (s.driver.devtable addr.toNat).epinfo with
    | some t => pure t
    | none => fail .nullPointer
  else fail .outOfBounds

/-- `devtable[ addr ].epinfo[ ep ]`. -/
def endpoint (addr ep : Byte) : Code σ EpRecord := do
  let t ← epinfo addr
  if ep.toNat < t.size then
    let s ← get
    pure (s.driver.ep t ep.toNat)
  else fail .outOfBounds

def modifyEndpoint (addr ep : Byte) (f : EpRecord → EpRecord) : Code σ Unit := do
  let t ← epinfo addr
  if ep.toNat < t.size then onDriver fun d => d.setEp t ep.toNat (f (d.ep t ep.toNat))
  else fail .outOfBounds

section Rules

variable {F : Stop Fault → Prop} {s : System σ}

@[simp] theorem wp_onChip {α : Type} (f : σ → α × σ) {Q : α → System σ → Prop} :
    wp F (onChip f) Q s ↔ Q (f s.chip).1 { s with chip := (f s.chip).2 } := Iff.rfl

@[simp] theorem wp_regWr (reg val : Byte) {Q : Unit → System σ → Prop} :
    wp F (regWr c reg val) Q s ↔ Q () { s with chip := c.regWr reg val s.chip } := Iff.rfl

@[simp] theorem wp_regRd (reg : Byte) {Q : Byte → System σ → Prop} :
    wp F (regRd c reg) Q s ↔ Q (c.regRd reg s.chip).1 { s with chip := (c.regRd reg s.chip).2 } := Iff.rfl

@[simp] theorem wp_bytesWr (reg : Byte) (data : List Byte) {Q : Unit → System σ → Prop} :
    wp F (bytesWr c reg data) Q s ↔ Q () { s with chip := c.bytesWr reg data s.chip } := Iff.rfl

@[simp] theorem wp_milliseconds {Q : DWord → System σ → Prop} :
    wp F (milliseconds c) Q s ↔
      Q ((c.nticks s.chip).1 * 1000 / c.ticksPerSecond) { s with chip := (c.nticks s.chip).2 } := Iff.rfl

@[simp] theorem wp_onDriver (f : Driver → Driver) {Q : Unit → System σ → Prop} :
    wp F (onDriver f) Q s ↔ Q () { s with driver := f s.driver } := Iff.rfl

theorem wp_epinfo {addr : Byte} {t : EpTable} (hdevice : addr.toNat ≤ usbNumDevices)
    (hpointer : (s.driver.devtable addr.toNat).epinfo = some t) {Q : EpTable → System σ → Prop} :
    wp F (epinfo addr) Q s ↔ Q t s := by
  rw [epinfo, wp_bind, wp_get, if_pos hdevice, hpointer]
  exact Iff.rfl

theorem wp_endpoint {addr ep : Byte} {t : EpTable} (h : s.driver.Has addr ep t)
    {Q : EpRecord → System σ → Prop} : wp F (endpoint addr ep) Q s ↔ Q (s.driver.ep t ep.toNat) s := by
  rw [endpoint, wp_bind, wp_epinfo h.device h.pointer, if_pos h.index]
  exact Iff.rfl

theorem wp_modifyEndpoint {addr ep : Byte} {t : EpTable} (h : s.driver.Has addr ep t) (f : EpRecord → EpRecord)
    {Q : Unit → System σ → Prop} :
    wp F (modifyEndpoint addr ep f) Q s ↔
      Q () { s with driver := s.driver.setEp t ep.toNat (f (s.driver.ep t ep.toNat)) } := by
  rw [modifyEndpoint, wp_bind, wp_epinfo h.device h.pointer, if_pos h.index]
  exact Iff.rfl

end Rules

end Code

end ECE385.UsbHost.Records
