import Mathlib.Data.BitVec

namespace ECE385.UsbHost.Pio

abbrev Byte := BitVec 8

/-- The output registers of the LED, HEX and keycode PIOs. -/
structure Board where
  leds : BitVec 14
  hexDigits : BitVec 16
  keycode : Byte

def setLED (led : Nat) (b : Board) : Board := { b with leds := b.leds ||| 1#14 <<< led }

def clearLED (led : Nat) (b : Board) : Board := { b with leds := b.leds &&& ~~~(1#14 <<< led) }

def setKeycode (keycode : BitVec 16) (b : Board) : Board := { b with keycode := keycode.setWidth 8 }

def absolute (value : Byte) : Byte := if value.slt 0 then -value else value

/-- The sign and the hundreds of a value, each on a LED of its own. -/
def showSign (sign hundreds : Nat) (value : Byte) (b : Board) : Board :=
  let b := if value.slt 0 then setLED sign b else clearLED sign b
  if (absolute value).sdiv 100 ≠ 0 then setLED hundreds b else clearLED hundreds b

def tens (value : Byte) : Byte := ((absolute value).srem 100).sdiv 10

def ones (value : Byte) : Byte := ((absolute value).srem 100).srem 10

def printSignedHex0 (value : Byte) (b : Board) : Board :=
  { showSign 11 13 value b with
    hexDigits := (b.hexDigits &&& 0x00ff#16) ||| (tens value).setWidth 16 <<< 12 ||| (ones value).setWidth 16 <<< 8 }

def printSignedHex1 (value : Byte) (b : Board) : Board :=
  { showSign 10 12 value b with
    hexDigits := (b.hexDigits &&& 0xff00#16) ||| (tens value).setWidth 16 <<< 4 ||| (ones value).setWidth 16 }

end ECE385.UsbHost.Pio
