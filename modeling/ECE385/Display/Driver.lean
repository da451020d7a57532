import ECE385.Clocked.ByteLanes

namespace ECE385.Display.Driver

open Clocked.ByteLanes (Store)

def columns : Nat := 80

/-- Word address of `PALETTE` in the structure that the driver writes. -/
def palette : BitVec 12 := 0x800

/-- The byte stores into `VRAM` of the loop of `textVGADrawColorText` from index
`i`, on the bytes from there on. -/
def drawFrom (x y : Nat) (background foreground : BitVec 8) : Nat → List (BitVec 8) → List Store
  | _, [] => []
  | i, c :: str =>
      if c ≠ 0 then
        ⟨(y * columns + x + i) * 2, (foreground <<< 4) ||| background⟩ ::
          ⟨(y * columns + x + i) * 2 + 1, c⟩ :: drawFrom x y background foreground (i + 1) str
      else []

def textVGADrawColorText (str : List (BitVec 8)) (x y : Nat) (background foreground : BitVec 8) : List Store :=
  drawFrom x y background foreground 0 str

/-- The word that `setColorPalette` writes back for the word it has read. -/
def recolour (color red green blue : BitVec 8) (current : BitVec 32) : BitVec 32 :=
  let byte (b : BitVec 8) : BitVec 32 := b.zeroExtend 32
  if color.toNat % 2 = 0 then
    (current &&& 0xffffe000#32) + (byte red <<< 9 + byte green <<< 5 + byte blue <<< 1)
  else
    (current &&& 0x00001fff#32) + (byte red <<< 21 + byte green <<< 17 + byte blue <<< 13)

def paletteAddr (color : BitVec 8) : BitVec 12 := palette + BitVec.ofNat 12 (color.toNat / 2)

section Recolour

theorem toNat_and_high (x : BitVec 32) : (x &&& 0xffffe000#32).toNat = x.toNat / 8192 * 8192 := by
  have hbit : ∀ i, i < 32 → (0xffffe000#32).getLsbD i = decide (13 ≤ i) := by decide
  have hmask : x &&& 0xffffe000#32 = (x >>> 13) <<< 13 := by
    apply BitVec.eq_of_getLsbD_eq
    intro i hi
    rw [BitVec.getLsbD_and, hbit i hi, BitVec.getLsbD_shiftLeft, BitVec.getLsbD_ushiftRight]
    by_cases hlow : i < 13
    · simp [hlow, show ¬13 ≤ i by omega]
    · simp [hi, hlow, show 13 ≤ i by omega, show 13 + (i - 13) = i by omega]
  rw [hmask, BitVec.toNat_shiftLeft, BitVec.toNat_ushiftRight, Nat.shiftRight_eq_div_pow, Nat.shiftLeft_eq]
  have := x.isLt
  omega

theorem toNat_and_low (x : BitVec 32) : (x &&& 0x00001fff#32).toNat = x.toNat % 8192 := by
  rw [BitVec.toNat_and]
  exact Nat.and_two_pow_sub_one_eq_mod x.toNat 13

theorem toNat_byte_shift {b : BitVec 8} (hb : b.toNat < 16) {k : Nat} (hk : k ≤ 24) :
    ((b.zeroExtend 32) <<< k).toNat = b.toNat * 2 ^ k := by
  have hpow : 2 ^ k ≤ 2 ^ 24 := Nat.pow_le_pow_right (by decide) hk
  have hprod := Nat.mul_le_mul (Nat.le_of_lt_succ hb) hpow
  have hb' : b.toNat < 2 ^ 32 := by omega
  rw [BitVec.toNat_shiftLeft, BitVec.toNat_setWidth, Nat.shiftLeft_eq, Nat.mod_eq_of_lt hb']
  exact Nat.mod_eq_of_lt (by omega)

variable {color red green blue : BitVec 8} (current : BitVec 32)
  (hr : red.toNat < 16) (hg : green.toNat < 16) (hb : blue.toNat < 16)

include hr hg hb

theorem toNat_recolour_even (hcolor : color.toNat % 2 = 0) :
    (recolour color red green blue current).toNat =
      current.toNat / 8192 * 8192 + (red.toNat * 512 + green.toNat * 32 + blue.toNat * 2) := by
  have hlt := current.isLt
  simp only [recolour, if_pos hcolor, BitVec.toNat_add, toNat_and_high, toNat_byte_shift hr (show 9 ≤ 24 by decide),
    toNat_byte_shift hg (show 5 ≤ 24 by decide), toNat_byte_shift hb (show 1 ≤ 24 by decide)]
  omega

theorem toNat_recolour_odd (hcolor : color.toNat % 2 ≠ 0) :
    (recolour color red green blue current).toNat =
      current.toNat % 8192 + (red.toNat * 2097152 + green.toNat * 131072 + blue.toNat * 8192) := by
  simp only [recolour, if_neg hcolor, BitVec.toNat_add, toNat_and_low, toNat_byte_shift hr (show 21 ≤ 24 by decide),
    toNat_byte_shift hg (show 17 ≤ 24 by decide), toNat_byte_shift hb (show 13 ≤ 24 by decide)]
  omega

end Recolour

end ECE385.Display.Driver
