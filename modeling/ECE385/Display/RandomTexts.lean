import ECE385.Display.Lines

namespace ECE385.Display.RandomTexts

open Clocked.LastWrite
open Coherence (loading powerUp)
open Cell Interface Lines Palette

/-- What sprintf leaves in `color_string`, up to the NUL. -/
def colorString (fg bg : BitVec 4) : List (BitVec 8) :=
  bytes "Drawing " ++ bytes (color fg).name ++ bytes " text with " ++ bytes (color bg).name ++ bytes " background"

def drawText (fg bg : BitVec 4) (x y : Nat) : Line where
  x := x % (80 - (colorString fg bg).length)
  y := y % 30
  background := bg.setWidth 8
  foreground := fg.setWidth 8
  text := colorString fg bg

/-- The lines drawn with the next `n` pairs of colours. `rand` is called for the
`k`th time first. A pair of one colour twice is thrown away. -/
def texts (rand : Nat → Nat) : Nat → Nat → List Line
  | 0, _ => []
  | n + 1, k =>
      let fg := BitVec.ofNat 4 (rand k)
      let bg := BitVec.ofNat 4 (rand (k + 1))
      if fg = bg then texts rand n (k + 2)
      else drawText fg bg (rand (k + 2)) (rand (k + 3)) :: texts rand n (k + 4)

def textVGAColorScreenSaver (rand : Nat → Nat) (n : Nat) : List Op := program (texts rand n 0)

section Text

theorem name_bytes (c : BitVec 4) :
    (bytes (color c).name).length ≤ 13 ∧ ∀ b ∈ bytes (color c).name, b ≠ 0 := by
  revert c
  decide +kernel

theorem length_colorString (fg bg : BitVec 4) : (colorString fg bg).length ≤ 56 := by
  have hfg := (name_bytes fg).1
  have hbg := (name_bytes bg).1
  have hwords : (bytes "Drawing ").length = 8 ∧ (bytes " text with ").length = 11 ∧
      (bytes " background").length = 11 := by decide +kernel
  simp only [colorString, List.length_append]
  omega

theorem colorString_ne_zero (fg bg : BitVec 4) : ∀ b ∈ colorString fg bg, b ≠ 0 := by
  have hwords : (∀ b ∈ bytes "Drawing ", b ≠ 0) ∧ (∀ b ∈ bytes " text with ", b ≠ 0) ∧
      ∀ b ∈ bytes " background", b ≠ 0 := by decide +kernel
  intro b hb
  simp only [colorString, List.mem_append] at hb
  rcases hb with (((hb | hb) | hb) | hb) | hb
  · exact hwords.1 b hb
  · exact (name_bytes fg).2 b hb
  · exact hwords.2.1 b hb
  · exact (name_bytes bg).2 b hb
  · exact hwords.2.2 b hb

theorem toNat_setWidth_lt (c : BitVec 4) : (c.setWidth 8).toNat < 16 := by
  rw [BitVec.toNat_setWidth_of_le (by decide)]
  exact c.isLt

theorem low_setWidth (c : BitVec 4) : low (c.setWidth 8) = c := by
  revert c
  decide

theorem drawText_valid (fg bg : BitVec 4) (x y : Nat) : (drawText fg bg x y).Valid where
  row := Nat.mod_lt _ (by decide)
  column := by
    have hlength := length_colorString fg bg
    have hx : x % (80 - (colorString fg bg).length) < 80 - (colorString fg bg).length := Nat.mod_lt _ (by omega)
    show x % (80 - (colorString fg bg).length) + (colorString fg bg).length ≤ 80
    omega
  text := colorString_ne_zero fg bg
  background := toNat_setWidth_lt bg
  foreground := toNat_setWidth_lt fg

theorem rgb_injective {c d : BitVec 4} : rgb c = rgb d → c = d := by
  revert c d
  decide +kernel

variable {rand : Nat → Nat}

theorem mem_texts {n k : Nat} {l : Line} (hl : l ∈ texts rand n k) :
    ∃ fg bg x y, fg ≠ bg ∧ l = drawText fg bg x y := by
  induction n generalizing k with
  | zero => cases hl
  | succ n ih =>
      rw [texts] at hl
      split at hl
      · exact ih hl
      · rename_i hne
        rcases List.mem_cons.mp hl with rfl | hl
        · exact ⟨_, _, _, _, hne, rfl⟩
        · exact ih hl

theorem texts_valid (n k : Nat) : ∀ l ∈ texts rand n k, l.Valid := by
  intro l hl
  obtain ⟨fg, bg, x, y, -, rfl⟩ := mem_texts hl
  exact drawText_valid fg bg x y

end Text

section Screen

variable {fontRom : BitVec 11 → BitVec 8} {s t : Interface.State}

theorem at_text {l : Line} {i : Nat} (hi : i < l.text.length) :
    l.at l.y (l.x + i) = some ⟨l.text[i], l.background, l.foreground⟩ := by
  rw [Line.at, if_pos ⟨rfl, Nat.le_add_right l.x i⟩, Nat.add_sub_cancel_left, List.getElem?_eq_getElem hi]
  rfl

/-- Where no later line covers it, a line is on the screen in its own two colours. -/
theorem screen_text {ls later : List Line} {l : Line} {drawX drawY i : Nat} (hi : i < l.text.length)
    (hrow : drawY / 16 = l.y) (hcolumn : drawX / 8 = l.x + i)
    (hlater : ∀ l' ∈ later, l'.at (drawY / 16) (drawX / 8) = none) :
    screen fontRom (ls ++ l :: later) drawX drawY =
      if glyph fontRom l.text[i] drawX drawY then rgb (low l.foreground) else rgb (low l.background) := by
  have hat : l.at (drawY / 16) (drawX / 8) = some ⟨l.text[i], l.background, l.foreground⟩ := by
    rw [hrow, hcolumn]
    exact at_text hi
  have hlast : lastOf (·.at (drawY / 16) (drawX / 8)) (ls ++ l :: later) =
      some ⟨l.text[i], l.background, l.foreground⟩ := by
    rw [lastOf_append, lastOf, lastOf_eq_none hlater, hat]
    rfl
  rw [screen, hlast]

/-- Whatever `rand` returns, every text is on the screen from end to end, and where no
later text covers it, it can be read: in the colours that it names, which differ. -/
theorem texts_readable (rand : Nat → Nat) (n : Nat)
    (h : Executes fontRom s.reset (textVGAColorScreenSaver rand n) t) (y : Nat → Bus) (m : Nat) (hm : 0 < m)
    (hquiet : ∀ j, j < m → (y j).wren = false) (drawX drawY : Nat) (hX : drawX < 640) (hY : drawY < 480)
    (hrising : (Interface.run fontRom y t m).clkdiv = false)
    (hdrawX : (Interface.run fontRom y t m).hc = BitVec.ofNat 10 drawX)
    (hdrawY : (Interface.run fontRom y t m).vc = BitVec.ofNat 10 drawY) :
    (Interface.run fontRom y t (m + 1)).rgb = screen fontRom (texts rand n 0) drawX drawY ∧
    ∀ ls l later, texts rand n 0 = ls ++ l :: later →
      l.Valid ∧ ∃ fg bg, l.text = colorString fg bg ∧ rgb fg ≠ rgb bg ∧
        ∀ i (hi : i < l.text.length), drawY / 16 = l.y → drawX / 8 = l.x + i →
          (∀ l' ∈ later, l'.at (drawY / 16) (drawX / 8) = none) →
            (Interface.run fontRom y t (m + 1)).rgb =
              if glyph fontRom l.text[i] drawX drawY then rgb fg else rgb bg := by
  have hshown : (Interface.run fontRom y t (m + 1)).rgb = screen fontRom (texts rand n 0) drawX drawY := by
    rw [picture_shown h hm hquiet hX hY hrising hdrawX hdrawY]
    exact program_picture (texts_valid n 0) h hX hY
  refine ⟨hshown, fun ls l later htexts => ?_⟩
  have hl : l ∈ texts rand n 0 := by
    rw [htexts]
    exact List.mem_append_right ls List.mem_cons_self
  obtain ⟨fg, bg, px, py, hne, rfl⟩ := mem_texts hl
  refine ⟨drawText_valid fg bg px py, fg, bg, rfl, fun heq => hne (rgb_injective heq), ?_⟩
  intro i hi hrow hcolumn hlater
  rw [hshown, htexts, screen_text hi hrow hcolumn hlater]
  show (if _ then rgb (low (fg.setWidth 8)) else rgb (low (bg.setWidth 8))) = _
  rw [low_setWidth, low_setWidth]

end Screen

section Example

def solid : BitVec 11 → BitVec 8 := fun _ => 0xff

/-- Black on black is thrown away, then white on blue is drawn in the corner. -/
def drawn (k : Nat) : Nat := if k = 2 then 15 else if k = 3 then 1 else 0

/-- Something was on the screen, in colours of which the memory knows nothing. -/
def littered : Interface.State := { powerUp with mem := fun _ => 0x41424344, localReg := fun _ => 0xffffffff }

theorem texts_readable_corner : ∃ t m, Executes solid littered.reset (textVGAColorScreenSaver drawn 2) t ∧
    (Interface.run solid (fun _ => loading 0) t (m + 1)).rgb = ⟨0xf, 0xf, 0xf⟩ := by
  obtain ⟨t, ht⟩ := exists_executes solid (textVGAColorScreenSaver drawn 2) littered.reset
  obtain ⟨m, hm, hrising, hdrawX, hdrawY⟩ := exists_taken ht (fun _ => loading 0) (show 0 < 640 by decide)
    (show 0 < 480 by decide)
  refine ⟨t, m, ht, ?_⟩
  rw [(texts_readable drawn 2 ht (fun _ => loading 0) m hm (fun _ _ => rfl) 0 0 (by decide) (by decide)
    hrising hdrawX hdrawY).1]
  decide +kernel

end Example

end ECE385.Display.RandomTexts
