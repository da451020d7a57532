import ECE385.UsbHost.Pio
import ECE385.UsbHost.UsbTask

namespace ECE385.UsbHost.Main

open MAX3421E Records Transfer Hid UsbTask
open Imperative.Program
open Pio (Board setLED clearLED setKeycode printSignedHex0 printSignedHex1)

/-- The locals of main, with the board that it drives. -/
structure Locals where
  runningdebugflag : Bool
  errorflag : Bool
  device : Byte
  buf : Fin 8 → Byte
  kbdbuf : Fin 8 → Byte
  board : Board

def addr : Byte := 1

def numDevclasses : Nat := 4

/-- The class of the last device in the table. A class that has no name would be
looked up behind the end of the names. -/
def lastDevice (d : Driver) : List Byte → Byte → Code σ Byte
  | [], device => pure device
  | i :: is, device =>
      let r := d.devtable i.toNat
      if r.epinfo = none then lastDevice d is device
      else if r.devclass.toNat < numDevclasses then lastDevice d is r.devclass
      else fail .outOfBounds

section Main

variable {σ : Type} (c : Chip σ) (fuel : Nat)

def getDriverandReport : Code σ Byte := do
  let s ← get
  let device ← lastDevice s.driver addresses 0xff
  let _ ← xferGetIdle c fuel addr 0 s.driver.hidInterface 0 1
  let s ← get
  let _ ← xferGetProto c fuel addr 0 s.driver.hidInterface 1
  pure device

def showKeys (report : Fin 8 → Byte) (b : Board) : Board :=
  printSignedHex1 (offset report 3) (printSignedHex0 (offset report 2) (setKeycode ((offset report 2).setWidth 16) b))

def showButton (led : Nat) (mask button : Byte) (b : Board) : Board :=
  if button &&& mask ≠ 0 then setLED led b else clearLED led b

def showMouse (report : Fin 8 → Byte) (b : Board) : Board :=
  let b := printSignedHex1 (offset report 2) (printSignedHex0 (offset report 1) b)
  let button := offset report 0
  showButton 0 0x01 button (showButton 1 0x02 button (showButton 2 0x04 button b))

def running (v : Locals) : Code σ Locals :=
  if v.runningdebugflag = false then do
    let device ← getDriverandReport c fuel
    pure { v with runningdebugflag := true, board := setLED 9 v.board, device := device }
  else if v.device = 1 then do
    let (rcode, data) ← kbdPoll c fuel
    let v := { v with kbdbuf := stored data v.kbdbuf }
    if rcode ≠ 0 then pure v else pure { v with board := showKeys v.kbdbuf v.board }
  else if v.device = 2 then do
    let (rcode, data) ← mousePoll c fuel
    let v := { v with buf := stored data v.buf }
    if rcode ≠ 0 then pure v else pure { v with board := showMouse v.buf v.board }
  else pure v

def notRunning (v : Locals) : Code σ Locals := do
  doIf (v.runningdebugflag = true) do
    max3421EInit c fuel
    usbInit
  pure { v with runningdebugflag := false, errorflag := false, board := clearLED 9 v.board }

def iteration (v : Locals) : Code σ Locals := do
  max3421ETask c
  usbTask c fuel
  let s ← get
  if s.driver.usbTaskState = usbStateRunning then running c fuel v
  else if s.driver.usbTaskState = usbStateError then
    if v.errorflag then pure v else pure { v with errorflag := true, board := clearLED 9 v.board }
  else notRunning c fuel v

def iterations (v : Locals) : Nat → Code σ Locals
  | 0 => pure v
  | n + 1 => do
      let v' ← iterations v n
      iteration c fuel v'

/-- main, for `n` passes of its loop. -/
def main (v : Locals) (n : Nat) : Code σ Locals := do
  max3421EInit c fuel
  usbInit
  iterations c fuel { v with runningdebugflag := false, errorflag := false } n

end Main

end ECE385.UsbHost.Main
