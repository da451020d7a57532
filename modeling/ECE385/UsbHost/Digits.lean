import ECE385.UsbHost.Pio

namespace ECE385.UsbHost.Digits

open Pio

/-- A signed value from a sign, hundreds and two digits. -/
def value (negative hundreds : Bool) (tens ones : BitVec 4) : Int :=
  let n := (if hundreds then 100 else 0) + 10 * tens.toNat + ones.toNat
  if negative then -n else n

/-- What the LEDs and the two left digits say, and the two right digits. -/
def reading0 (b : Board) : Int :=
  value (b.leds.getLsbD 11) (b.leds.getLsbD 13) (b.hexDigits.extractLsb' 12 4) (b.hexDigits.extractLsb' 8 4)

def reading1 (b : Board) : Int :=
  value (b.leds.getLsbD 10) (b.leds.getLsbD 12) (b.hexDigits.extractLsb' 4 4) (b.hexDigits.extractLsb' 0 4)

/-- The two digits as printSignedHex1 puts them, and as printSignedHex0 does. -/
def low (value : Byte) : BitVec 16 := (tens value).setWidth 16 <<< 4 ||| (ones value).setWidth 16

def high (value : Byte) : BitVec 16 := (tens value).setWidth 16 <<< 12 ||| (ones value).setWidth 16 <<< 8

theorem getLsbD_bit {led : Nat} (h : led < 14) (i : Nat) : (1#14 <<< led).getLsbD i = decide (i = led) := by
  rw [BitVec.getLsbD_shiftLeft, BitVec.getLsbD_one]
  by_cases heq : i = led
  · simp [heq, h]
  · have hne : ¬(¬i < led ∧ i - led = 0) := by omega
    simp only [heq, decide_false, Bool.and_eq_false_iff, Bool.not_eq_false', decide_eq_true_eq]
    grind

theorem getLsbD_setLED (b : Board) {led : Nat} (h : led < 14) (i : Nat) :
    (setLED led b).leds.getLsbD i = (b.leds.getLsbD i || decide (i = led)) := by
  rw [setLED, BitVec.getLsbD_or, getLsbD_bit h]

theorem getLsbD_clearLED (b : Board) {led : Nat} (h : led < 14) (i : Nat) :
    (clearLED led b).leds.getLsbD i = (b.leds.getLsbD i && !decide (i = led)) := by
  rw [clearLED, BitVec.getLsbD_and, BitVec.getLsbD_not, getLsbD_bit h]
  by_cases hi : i < 14
  · simp [hi]
  · rw [BitVec.getLsbD_of_ge _ _ (Nat.le_of_not_lt hi), Bool.false_and, Bool.false_and]

theorem getLsbD_switch (b : Board) {led : Nat} (h : led < 14) (c : Prop) [Decidable c] (i : Nat) :
    (if c then setLED led b else clearLED led b).leds.getLsbD i = if i = led then decide c else b.leds.getLsbD i := by
  by_cases hc : c
  · rw [if_pos hc, getLsbD_setLED b h]
    by_cases hi : i = led <;> simp [hi, hc]
  · rw [if_neg hc, getLsbD_clearLED b h]
    by_cases hi : i = led <;> simp [hi, hc]

theorem digits_split (digits : BitVec 16) (v w : Byte) :
    (((digits &&& 0x00ff#16) ||| (tens v).setWidth 16 <<< 12 ||| (ones v).setWidth 16 <<< 8) &&& 0xff00#16) |||
      (tens w).setWidth 16 <<< 4 ||| (ones w).setWidth 16 = high v ||| low w := by
  have hhigh : ∀ v, high v &&& 0xff00#16 = high v := by decide +kernel
  have hmask : 0x00ff#16 &&& 0xff00#16 = 0#16 := by decide
  rw [BitVec.or_assoc (digits &&& _), BitVec.and_or_distrib_right, BitVec.and_assoc, hmask, BitVec.and_zero,
    BitVec.zero_or, ← high, hhigh, BitVec.or_assoc, ← low]

section Print

variable (b : Board) (v w : Byte)

/-- The sign and the hundreds come to two LEDs, the others stay. -/
theorem getLsbD_showSign {sign hundreds : Nat} (hsign : sign < 14) (hhundreds : hundreds < 14) (i : Nat) :
    (showSign sign hundreds v b).leds.getLsbD i =
      if i = hundreds then decide ((absolute v).sdiv 100 ≠ 0)
      else if i = sign then decide (v.slt 0 = true) else b.leds.getLsbD i := by
  rw [showSign, getLsbD_switch _ hhundreds, getLsbD_switch _ hsign]

theorem showSign_keycode (sign hundreds : Nat) : (showSign sign hundreds v b).keycode = b.keycode := by
  unfold showSign
  split <;> split <;> rfl

def printed : Board := printSignedHex1 w (printSignedHex0 v b)

theorem printed_hexDigits : (printed b v w).hexDigits = high v ||| low w := digits_split b.hexDigits v w

theorem printed_leds (i : Nat) : (printed b v w).leds.getLsbD i =
    if i = 12 then decide ((absolute w).sdiv 100 ≠ 0) else if i = 10 then decide (w.slt 0 = true)
    else if i = 13 then decide ((absolute v).sdiv 100 ≠ 0) else if i = 11 then decide (v.slt 0 = true)
    else b.leds.getLsbD i := by
  have hlow : (printed b v w).leds = (showSign 10 12 w (printSignedHex0 v b)).leds := rfl
  have hhigh : (printSignedHex0 v b).leds = (showSign 11 13 v b).leds := rfl
  rw [hlow, getLsbD_showSign _ _ (by decide) (by decide), hhigh, getLsbD_showSign _ _ (by decide) (by decide)]

theorem high_value : ∀ v : Byte, v ≠ 0x80 → value (decide (v.slt 0 = true)) (decide ((absolute v).sdiv 100 ≠ 0))
    ((high v).extractLsb' 12 4) ((high v).extractLsb' 8 4) = v.toInt := by decide +kernel

theorem low_value : ∀ w : Byte, w ≠ 0x80 → value (decide (w.slt 0 = true)) (decide ((absolute w).sdiv 100 ≠ 0))
    ((low w).extractLsb' 4 4) ((low w).extractLsb' 0 4) = w.toInt := by decide +kernel

theorem high_low : ∀ v : Byte, (high v).extractLsb' 4 4 = 0#4 ∧ (high v).extractLsb' 0 4 = 0#4 := by decide +kernel

theorem low_high : ∀ w : Byte, w ≠ 0x80 → (low w).extractLsb' 12 4 = 0#4 ∧ (low w).extractLsb' 8 4 = 0#4 := by
  decide +kernel

/-- The least value has no positive counterpart, and its digits are none. -/
theorem high_min : ∀ w : Byte, value (decide ((0x80 : Byte).slt 0 = true))
    (decide ((absolute 0x80).sdiv 100 ≠ 0)) ((high 0x80 ||| low w).extractLsb' 12 4)
    ((high 0x80 ||| low w).extractLsb' 8 4) ≠ -128 := by decide +kernel

theorem low_min : ∀ v : Byte, value (decide ((0x80 : Byte).slt 0 = true))
    (decide ((absolute 0x80).sdiv 100 ≠ 0)) ((high v ||| low 0x80).extractLsb' 4 4)
    ((high v ||| low 0x80).extractLsb' 0 4) ≠ -128 := by decide +kernel

theorem reading0_printed : reading0 (printed b v w) = value (decide (v.slt 0 = true))
    (decide ((absolute v).sdiv 100 ≠ 0)) ((high v ||| low w).extractLsb' 12 4)
    ((high v ||| low w).extractLsb' 8 4) := by
  rw [reading0, printed_hexDigits, printed_leds, printed_leds]
  rfl

theorem reading1_printed : reading1 (printed b v w) = value (decide (w.slt 0 = true))
    (decide ((absolute w).sdiv 100 ≠ 0)) ((high v ||| low w).extractLsb' 4 4)
    ((high v ||| low w).extractLsb' 0 4) := by
  rw [reading1, printed_hexDigits, printed_leds, printed_leds]
  rfl

/-- The two values that are printed can be read from the board, unless one of them is
-128; the other LEDs and the key code stay as they were. -/
theorem printed_readable :
    (reading0 (printed b v w) = v.toInt ∧ reading1 (printed b v w) = w.toInt ↔ v ≠ 0x80 ∧ w ≠ 0x80) ∧
      (∀ i, i < 10 → (printed b v w).leds.getLsbD i = b.leds.getLsbD i) ∧ (printed b v w).keycode = b.keycode := by
  refine ⟨⟨?_, ?_⟩, fun i hi => ?_, (showSign_keycode _ w 10 12).trans (showSign_keycode b v 11 13)⟩
  · rintro ⟨h0, h1⟩
    rw [reading0_printed] at h0
    rw [reading1_printed] at h1
    constructor
    · rintro rfl
      exact high_min w h0
    · rintro rfl
      exact low_min v h1
  · rintro ⟨hv, hw⟩
    obtain ⟨htens, hones⟩ := high_low v
    obtain ⟨htens', hones'⟩ := low_high w hw
    rw [reading0_printed, reading1_printed]
    simp only [BitVec.extractLsb'_or, htens, hones, htens', hones', BitVec.or_zero, BitVec.zero_or]
    exact ⟨high_value v hv, low_value w hw⟩
  · rw [printed_leds, if_neg (by omega), if_neg (by omega), if_neg (by omega), if_neg (by omega)]

end Print

end ECE385.UsbHost.Digits
