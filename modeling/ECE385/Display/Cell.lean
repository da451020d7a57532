import ECE385.Display.Scan

namespace ECE385.Display.Cell

open Clocked.ByteLanes Interface Scan

def cell (drawX drawY : Nat) : Nat := 80 * (drawY / 16) + drawX / 8

/-- A cell is two bytes, its attributes and its character. -/
def attr (mem : BitVec 12 → BitVec 32) (c : Nat) : BitVec 8 := byteAt mem (2 * c)
def character (mem : BitVec 12 → BitVec 32) (c : Nat) : BitVec 8 := byteAt mem (2 * c + 1)

/-- What the font draws for a character at a position. -/
def glyph (fontRom : BitVec 11 → BitVec 8) (c : BitVec 8) (drawX drawY : Nat) : Bool :=
  (fontRom (BitVec.ofNat 11 (16 * (c.toNat % 128) + drawY % 16))).getLsbD (7 - drawX % 8) ^^ c.getLsbD 7

/-- The colour of a visible position, from the bytes of its cell. -/
def picture (fontRom : BitVec 11 → BitVec 8) (mem : BitVec 12 → BitVec 32) (localReg : BitVec 3 → BitVec 32)
    (drawX drawY : Nat) : Rgb :=
  let c := cell drawX drawY
  if glyph fontRom (character mem c) drawX drawY then fgd localReg ((attr mem c).extractLsb' 4 4)
  else bkd localReg ((attr mem c).extractLsb' 0 4)

theorem picture_congr {mem mem' : BitVec 12 → BitVec 32} {drawX drawY : Nat}
    (hattr : attr mem (cell drawX drawY) = attr mem' (cell drawX drawY))
    (hchar : character mem (cell drawX drawY) = character mem' (cell drawX drawY))
    (fontRom : BitVec 11 → BitVec 8) (localReg : BitVec 3 → BitVec 32) :
    picture fontRom mem localReg drawX drawY = picture fontRom mem' localReg drawX drawY := by
  simp only [picture, hattr, hchar]

section Address

variable {drawX drawY : Nat} (hX : drawX < 640) (hY : drawY < 480)

theorem toNat_position {n : Nat} (h : n < 1024) : (BitVec.ofNat 10 n).toNat = n := by
  rw [BitVec.toNat_ofNat]
  exact Nat.mod_eq_of_lt h

include hX hY

theorem cell_lt : cell drawX drawY < 2400 := by
  rw [cell]
  omega

theorem toNat_charIdx : (charIdx (BitVec.ofNat 10 drawX) (BitVec.ofNat 10 drawY)).toNat = cell drawX drawY := by
  have hc := cell_lt hX hY
  rw [charIdx, charX, charY]
  rw [BitVec.toNat_ofNat, toNat_field, toNat_field, toNat_position (by omega), toNat_position (by omega)]
  have hrow : drawY / 2 ^ 4 % 2 ^ 6 = drawY / 16 := Nat.mod_eq_of_lt (by omega)
  have hcolumn : drawX / 2 ^ 3 % 2 ^ 7 = drawX / 8 := Nat.mod_eq_of_lt (by omega)
  rw [hrow, hcolumn]
  exact Nat.mod_eq_of_lt (Nat.lt_trans hc (by decide))

theorem charIdx_odd : (charIdx (BitVec.ofNat 10 drawX) (BitVec.ofNat 10 drawY)).getLsbD 0 =
    decide (cell drawX drawY % 2 = 1) := by
  rw [BitVec.getLsbD, Nat.testBit_eq_decide_div_mod_eq, toNat_charIdx hX hY, Nat.pow_zero, Nat.div_one]

theorem vramWord_eq : vramWord drawX drawY = BitVec.ofNat 12 (cell drawX drawY / 2) := by
  have hc := cell_lt hX hY
  apply BitVec.eq_of_toNat_eq
  rw [vramWord, vgaAddr]
  rw [BitVec.toNat_ofNat, BitVec.toNat_setWidth, toNat_field, toNat_charIdx hX hY]
  simp only [Nat.reducePow]
  omega

end Address

section Byte

variable (mem : BitVec 12 → BitVec 32) (c : Nat)

theorem byteAt_cell {k : Nat} (hk : k < 2) : byteAt mem (2 * c + k) =
    if c % 2 = 1 then lane (k + 2) (mem (BitVec.ofNat 12 (c / 2))) else lane k (mem (BitVec.ofNat 12 (c / 2))) := by
  have hword : (2 * c + k) / 4 = c / 2 := by omega
  rw [byteAt, hword]
  split
  · have hlane : (2 * c + k) % 4 = k + 2 := by omega
    rw [hlane]
  · have hlane : (2 * c + k) % 4 = k := by omega
    rw [hlane]

theorem attr_eq : attr mem c =
    if c % 2 = 1 then lane 2 (mem (BitVec.ofNat 12 (c / 2))) else lane 0 (mem (BitVec.ofNat 12 (c / 2))) :=
  byteAt_cell mem c (Nat.succ_pos 1)

theorem character_eq : character mem c =
    if c % 2 = 1 then lane 3 (mem (BitVec.ofNat 12 (c / 2))) else lane 1 (mem (BitVec.ofNat 12 (c / 2))) :=
  byteAt_cell mem c (Nat.lt_succ_self 1)

theorem nibble_lane (k j : Nat) (x : BitVec 32) (hj : j + 4 ≤ 8) :
    (lane k x).extractLsb' j 4 = x.extractLsb' (8 * k + j) 4 := by
  apply BitVec.eq_of_getLsbD_eq
  intro i hi
  have hi' : j + i < 8 := by omega
  simp [lane, BitVec.getLsbD_extractLsb', hi', Nat.add_assoc]

end Byte

section Pixel

variable (fontRom : BitVec 11 → BitVec 8) (localReg : BitVec 3 → BitVec 32) (mem : BitVec 12 → BitVec 32)
  {drawX drawY : Nat} (hX : drawX < 640) (hY : drawY < 480)

include hX hY

theorem curChar_eq : curChar (charIdx (BitVec.ofNat 10 drawX) (BitVec.ofNat 10 drawY)) (mem (vramWord drawX drawY)) =
    character mem (cell drawX drawY) := by
  rw [curChar]
  rw [charIdx_odd hX hY, character_eq, vramWord_eq hX hY]
  simp only [decide_eq_true_eq]
  rfl

theorem attr_nibble {j : Nat} (hj : j + 4 ≤ 8) :
    (if (charIdx (BitVec.ofNat 10 drawX) (BitVec.ofNat 10 drawY)).getLsbD 0 then
        (mem (vramWord drawX drawY)).extractLsb' (8 * 2 + j) 4
      else (mem (vramWord drawX drawY)).extractLsb' (8 * 0 + j) 4) =
      (attr mem (cell drawX drawY)).extractLsb' j 4 := by
  rw [charIdx_odd hX hY, attr_eq, vramWord_eq hX hY]
  simp only [decide_eq_true_eq]
  split
  · exact (nibble_lane 2 j _ hj).symm
  · exact (nibble_lane 0 j _ hj).symm

theorem fgdIdx_eq : fgdIdx (charIdx (BitVec.ofNat 10 drawX) (BitVec.ofNat 10 drawY)) (mem (vramWord drawX drawY)) =
    (attr mem (cell drawX drawY)).extractLsb' 4 4 :=
  attr_nibble mem hX hY le_rfl

theorem bkdIdx_eq : bkdIdx (charIdx (BitVec.ofNat 10 drawX) (BitVec.ofNat 10 drawY)) (mem (vramWord drawX drawY)) =
    (attr mem (cell drawX drawY)).extractLsb' 0 4 :=
  attr_nibble mem hX hY (Nat.le_add_left 4 4)

omit hX hY in
theorem inverse_cases {α : Type} (on inverse : Bool) (f b : α) :
    (if on && !inverse then f else if on && inverse then b else if !on && inverse then f else b) =
      if on ^^ inverse then f else b := by
  cases on <;> cases inverse <;> rfl

theorem pixel_eq :
    pixel fontRom localReg (mem (vramWord drawX drawY)) (BitVec.ofNat 10 drawX) (BitVec.ofNat 10 drawY) =
      picture fontRom mem localReg drawX drawY := by
  have hfont (cur : BitVec 8) : fontAddr cur (BitVec.ofNat 10 drawY) =
      BitVec.ofNat 11 (16 * (cur.toNat % 128) + drawY % 16) := by
    rw [fontAddr]
    rw [toNat_field, toNat_field, toNat_position (by omega), Nat.pow_zero, Nat.div_one, Nat.div_one]
    rfl
  have hcolumn : ((BitVec.ofNat 10 drawX).extractLsb' 0 3).toNat = drawX % 8 := by
    rw [toNat_field, toNat_position (by omega), Nat.pow_zero, Nat.div_one]
    rfl
  have hdisplay : (!(640 ≤ (BitVec.ofNat 10 drawX).toNat || 480 ≤ (BitVec.ofNat 10 drawY).toNat)) = true := by
    rw [toNat_position (by omega), toNat_position (by omega)]
    simp [hX, hY]
  simp only [pixel, curChar_eq mem hX hY, fgdIdx_eq mem hX hY, bkdIdx_eq mem hX hY, hfont, hcolumn]
  simp only [hdisplay, picture, glyph, Bool.not_true, Bool.false_eq_true, if_false]
  exact inverse_cases ..

end Pixel

end ECE385.Display.Cell
