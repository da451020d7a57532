import ECE385.Clocked.Progress
import ECE385.Display.Trace

namespace ECE385.Display.Lines

open Clocked.ByteLanes Clocked.LastWrite
open Clocked.Progress (prepend prepend_add run_prepend)
open Cell Coherence Driver Palette Rendering Trace
open Interface (Bus Rgb entry fgd bkd)
open Scan (Takes)

def bytes (s : String) : List (BitVec 8) := s.toUTF8.data.toList.map UInt8.toBitVec

structure Line where
  x : Nat
  y : Nat
  background : BitVec 8
  foreground : BitVec 8
  text : List (BitVec 8)

def Line.draw (l : Line) : List Store := textVGADrawColorText (l.text ++ 0 :: []) l.x l.y l.background l.foreground

def textVGAColorClr : List Store := (List.range (30 * columns * 2)).map fun i => ⟨i, 0⟩

structure Color where
  name : String
  red : BitVec 8
  green : BitVec 8
  blue : BitVec 8

def colors : List Color :=
  [⟨"black", 0x0, 0x0, 0x0⟩, ⟨"blue", 0x0, 0x0, 0xa⟩, ⟨"green", 0x0, 0xa, 0x0⟩, ⟨"cyan", 0x0, 0xa, 0xa⟩,
    ⟨"red", 0xa, 0x0, 0x0⟩, ⟨"magenta", 0xa, 0x0, 0xa⟩, ⟨"brown", 0xa, 0x5, 0x0⟩, ⟨"light gray", 0xa, 0xa, 0xa⟩,
    ⟨"dark gray", 0x5, 0x5, 0x5⟩, ⟨"light blue", 0x5, 0x5, 0xf⟩, ⟨"light green", 0x5, 0xf, 0x5⟩,
    ⟨"light cyan", 0x5, 0xf, 0xf⟩, ⟨"light red", 0xf, 0x5, 0x5⟩, ⟨"light magenta", 0xf, 0x5, 0xf⟩,
    ⟨"yellow", 0xf, 0xf, 0x5⟩, ⟨"white", 0xf, 0xf, 0xf⟩]

def color (c : BitVec 4) : Color := colors.getD c.toNat ⟨"", 0, 0, 0⟩

def initializePalette : List Op :=
  colors.mapIdx fun i c => .setColorPalette (BitVec.ofNat 8 i) c.red c.green c.blue

/-- The screen cleared, the palette set, and the lines drawn one after the other. -/
def program (ls : List Line) : List Op :=
  textVGAColorClr.map .store ++ initializePalette ++ (ls.flatMap Line.draw).map .store

structure Mark where
  char : BitVec 8
  background : BitVec 8
  foreground : BitVec 8
  deriving DecidableEq

def Line.at (row column : Nat) (l : Line) : Option Mark :=
  if l.y = row ∧ l.x ≤ column then l.text[column - l.x]?.map fun c => ⟨c, l.background, l.foreground⟩ else none

def rgb (c : BitVec 4) : Rgb := ⟨low (color c).red, low (color c).green, low (color c).blue⟩

/-- A black screen on which the lines are drawn, the later ones over the earlier. -/
def screen (fontRom : BitVec 11 → BitVec 8) (ls : List Line) (drawX drawY : Nat) : Rgb :=
  match lastOf (·.at (drawY / 16) (drawX / 8)) ls with
  | some m => if glyph fontRom m.char drawX drawY then rgb (low m.foreground) else rgb (low m.background)
  | none => rgb 0

/-- The line lies on the screen, its text has no NUL, and its colours exist. -/
structure Line.Valid (l : Line) : Prop where
  row : l.y < 30
  column : l.x + l.text.length ≤ 80
  text : ∀ c ∈ l.text, c ≠ 0
  background : l.background.toNat < 16
  foreground : l.foreground.toNat < 16

section Line

variable {l : Line} {row column : Nat}

theorem at_eq_none_iff : l.at row column = none ↔ ¬(l.y = row ∧ l.x ≤ column ∧ column < l.x + l.text.length) := by
  rw [Line.at]
  split
  · rename_i hin
    rw [Option.map_eq_none_iff, List.getElem?_eq_none_iff]
    omega
  · rename_i hin
    refine ⟨fun _ h => hin ⟨h.1, h.2.1⟩, fun _ => rfl⟩

theorem at_inks {m : Mark} (h : l.at row column = some m) :
    m.background = l.background ∧ m.foreground = l.foreground := by
  rw [Line.at] at h
  split at h
  · obtain ⟨c, -, rfl⟩ := Option.map_eq_some_iff.mp h
    exact ⟨rfl, rfl⟩
  · cases h

variable (hl : l.Valid) (hcolumn : column < 80)

include hl

theorem offset_draw {st : Store} (hst : st ∈ l.draw) : st.offset < 4800 := by
  have hoffset := text_offset l.x l.y l.background l.foreground [] hl.text (i := 0) hst
  have hrow := hl.row
  have hspace := hl.column
  rw [columns] at hoffset
  omega

include hcolumn

theorem lastStore_draw :
    lastStore (2 * (80 * row + column)) l.draw = (l.at row column).map (fun m => inks m.background m.foreground) ∧
    lastStore (2 * (80 * row + column) + 1) l.draw = (l.at row column).map Mark.char := by
  have hspace := hl.column
  have hdraw : l.draw = text l.x l.y l.background l.foreground [] 0 l.text := rfl
  by_cases hin : l.y = row ∧ l.x ≤ column ∧ column < l.x + l.text.length
  · obtain ⟨hrow, hleft, hright⟩ := hin
    have hlt : column - l.x < l.text.length := by omega
    have hcell : 80 * row + column = l.y * columns + l.x + 0 + (column - l.x) := by
      rw [columns]
      omega
    obtain ⟨hattr, hchar⟩ := lastStore_text l.x l.y l.background l.foreground [] hl.text 0 (column - l.x) hlt
    rw [Line.at, if_pos ⟨hrow, hleft⟩, List.getElem?_eq_getElem hlt, hcell, hdraw]
    exact ⟨hattr, hchar⟩
  · have hother {o : Nat} (ho : o / 2 = 80 * row + column) : lastStore o l.draw = none := by
      rw [hdraw]
      refine lastStore_other l.x l.y l.background l.foreground [] hl.text fun j hj => ?_
      rw [ho, columns]
      omega
    rw [hother (by omega), hother (by omega), at_eq_none_iff.mpr hin]
    exact ⟨rfl, rfl⟩

end Line

theorem lastStore_append (o : Nat) (sts sts' : List Store) :
    lastStore o (sts ++ sts') = (lastStore o sts' <|> lastStore o sts) := lastOf_append ..

theorem lastStore_lines {ls : List Line} (hls : ∀ l ∈ ls, l.Valid) {row column : Nat} (hcolumn : column < 80) :
    lastStore (2 * (80 * row + column)) (ls.flatMap Line.draw) =
      (lastOf (·.at row column) ls).map (fun m => inks m.background m.foreground) ∧
    lastStore (2 * (80 * row + column) + 1) (ls.flatMap Line.draw) = (lastOf (·.at row column) ls).map Mark.char := by
  induction ls with
  | nil => exact ⟨rfl, rfl⟩
  | cons l ls ih =>
      obtain ⟨hattr, hchar⟩ := @lastStore_draw l row column (hls l List.mem_cons_self) hcolumn
      obtain ⟨hattrs, hchars⟩ := ih fun l hl => hls l (List.mem_cons_of_mem _ hl)
      rw [List.flatMap_cons, lastStore_append, lastStore_append, hattr, hchar, hattrs, hchars, lastOf]
      cases lastOf (·.at row column) ls <;> exact ⟨rfl, rfl⟩

theorem lastStore_clr {o : Nat} (ho : o < 4800) : lastStore o textVGAColorClr = some 0 := by
  have hrange (n : Nat) : lastStore o ((List.range n).map fun i => ⟨i, 0⟩) = if o < n then some 0 else none := by
    induction n with
    | zero => rfl
    | succ n ih =>
        rw [List.range_succ, List.map_append, lastStore_append, ih]
        show ((if o = n then some 0 else none : Option (BitVec 8)) <|> _) = _
        by_cases hn : o = n
        · rw [if_pos hn, if_pos (show o < n + 1 by omega)]
          rfl
        · have hiff : o < n + 1 ↔ o < n := by omega
          rw [if_neg hn, if_congr hiff rfl rfl]
          rfl
  rw [textVGAColorClr, hrange, if_pos (by rw [columns]; exact ho)]

section Program

variable {fontRom : BitVec 11 → BitVec 8} {s t : Interface.State} {ls : List Line}

theorem stores_program (ls : List Line) :
    (program ls).filterMap stores = textVGAColorClr ++ ls.flatMap Line.draw := by
  have hstores (sts : List Store) : (sts.map Op.store).filterMap stores = sts := by
    rw [List.filterMap_map]
    exact List.filterMap_some
  have hpalette : initializePalette.filterMap stores = [] := rfl
  rw [program, List.filterMap_append, List.filterMap_append, hstores, hstores, hpalette, List.append_nil]

theorem program_valid (hls : ∀ l ∈ ls, l.Valid) : ∀ op, op ∈ program ls → op.Valid := by
  intro op hop
  rcases List.mem_append.mp hop with hop | hop
  · rcases List.mem_append.mp hop with hop | hop
    · obtain ⟨st, hst, rfl⟩ := List.mem_map.mp hop
      obtain ⟨i, hi, rfl⟩ := List.mem_map.mp hst
      exact List.mem_range.mp hi
    · simp only [initializePalette, colors, List.mapIdx_cons, List.mapIdx_nil, List.mem_cons, List.not_mem_nil,
        or_false] at hop
      rcases hop with rfl | rfl | rfl | rfl | rfl | rfl | rfl | rfl | rfl | rfl | rfl | rfl | rfl | rfl | rfl | rfl <;>
        exact ⟨by decide, by decide, by decide, by decide⟩
  · obtain ⟨st, hst, rfl⟩ := List.mem_map.mp hop
    obtain ⟨l, hl, hdraw⟩ := List.mem_flatMap.mp hst
    exact offset_draw (hls l hl) hdraw

theorem lastCall_palette (c : BitVec 4) : lastCall c initializePalette = some (rgb c) := by
  revert c
  decide

theorem lastCall_program (ls : List Line) (c : BitVec 4) : lastCall c (program ls) = some (rgb c) := by
  have hstores (sts : List Store) : lastCall c (sts.map Op.store) = none := by
    refine lastOf_eq_none fun op hop => ?_
    obtain ⟨st, -, rfl⟩ := List.mem_map.mp hop
    rfl
  have happend (ops ops' : List Op) : lastCall c (ops ++ ops') = (lastCall c ops' <|> lastCall c ops) :=
    lastOf_append ..
  rw [program, happend, happend, hstores, hstores, lastCall_palette]
  rfl

variable (hls : ∀ l ∈ ls, l.Valid)

include hls

theorem lastOf_at {row column : Nat} {m : Mark} (h : lastOf (·.at row column) ls = some m) :
    m.background.toNat < 16 ∧ m.foreground.toNat < 16 := by
  obtain ⟨l, hl, hat⟩ := exists_of_lastOf h
  obtain ⟨hbackground, hforeground⟩ := at_inks hat
  rw [hbackground, hforeground]
  exact ⟨(hls l hl).background, (hls l hl).foreground⟩

variable (h : Executes fontRom s (program ls) t)

include h

theorem program_cell {row column : Nat} (hrow : row < 30) (hcolumn : column < 80) :
    attr t.mem (80 * row + column) =
      ((lastOf (·.at row column) ls).map fun m => inks m.background m.foreground).getD 0 ∧
    character t.mem (80 * row + column) = ((lastOf (·.at row column) ls).map Mark.char).getD 0 := by
  obtain ⟨hattr, hchar⟩ := @lastStore_lines ls hls row column hcolumn
  have hbyte {o : Nat} (ho : o < 4800) := executes_byteAt h (program_valid hls) ho
  simp only [stores_program, lastStore_append] at hbyte
  rw [attr, character, hbyte (by omega), hbyte (by omega), hattr, hchar, lastStore_clr (by omega),
    lastStore_clr (by omega)]
  cases lastOf (·.at row column) ls <;> exact ⟨rfl, rfl⟩

theorem program_picture {drawX drawY : Nat} (hX : drawX < 640) (hY : drawY < 480) :
    picture fontRom t.mem t.localReg drawX drawY = screen fontRom ls drawX drawY := by
  have hrow : drawY / 16 < 30 := by omega
  have hcolumn : drawX / 8 < 80 := by omega
  obtain ⟨hattr, hchar⟩ := program_cell hls h hrow hcolumn
  have hentry (c : BitVec 4) : entry t.localReg c = rgb c := executes_shows h (program_valid hls) (lastCall_program ls c)
  simp only [picture, cell, hattr, hchar, screen, fgd, bkd, hentry]
  cases hmark : lastOf (·.at (drawY / 16) (drawX / 8)) ls with
  | some m =>
      simp only [Option.map_some, Option.getD_some, inks_background,
        inks_foreground m.foreground (lastOf_at hls hmark).1]
      rfl
  | none =>
      have hzero (i : Nat) : (0 : BitVec 8).extractLsb' i 4 = 0 := BitVec.extractLsb'_zero
      simp only [Option.map_none, Option.getD_none, hzero, ite_self]

end Program

section Scan

variable {fontRom : BitVec 11 → BitVec 8} {s t : Interface.State}

theorem quiet_localReg (y : Nat → Bus) {n : Nat} (hquiet : ∀ m, m < n → (y m).wren = false) :
    (Interface.run fontRom y t n).localReg = t.localReg := by
  induction n with
  | zero => rfl
  | succ n ih =>
      rw [← ih fun m hm => hquiet m (Nat.lt_succ_of_lt hm)]
      exact edge_localReg_keep fontRom fun hw => Bool.noConfusion ((hquiet n (Nat.lt_succ_self n)).symm.trans hw)

/-- While nothing is written the picture of the registers and of the memory is
scanned out, whatever was done to them before. -/
theorem picture_shown {ops : List Op} (h : Executes fontRom s.reset ops t) {y : Nat → Bus} {n : Nat} (hn : 0 < n)
    (hquiet : ∀ m, m < n → (y m).wren = false) {drawX drawY : Nat} (hX : drawX < 640) (hY : drawY < 480)
    (hrising : (Interface.run fontRom y t n).clkdiv = false)
    (hdrawX : (Interface.run fontRom y t n).hc = BitVec.ofNat 10 drawX)
    (hdrawY : (Interface.run fontRom y t n).vc = BitVec.ofNat 10 drawY) :
    (Interface.run fontRom y t (n + 1)).rgb = picture fontRom t.mem t.localReg drawX drawY := by
  obtain ⟨bs, hbs⟩ := exists_edges h
  have hrun (m : Nat) : Interface.run fontRom (prepend bs y) s.reset (bs.length + m) = Interface.run fontRom y t m := by
    rw [hbs]
    exact run_prepend bs y s.reset m
  have htakes : Takes fontRom (prepend bs y) s (bs.length + n) drawX drawY := by
    refine ⟨?_, ?_, ?_⟩
    · rw [hrun, hrising]
    · rw [hrun, hdrawX]
    · rw [hrun, hdrawY]
  have hidle : Quiet (prepend bs y) bs.length (bs.length + n) := by
    intro m hm hlt hw
    obtain ⟨i, rfl⟩ := Nat.exists_eq_add_of_le hm
    rw [prepend_add] at hw
    exact Bool.noConfusion ((hquiet i (by omega)).symm.trans hw)
  have hshown := taken_quiet fontRom s hX hY (by omega) hidle htakes
  have hstart := hrun 0
  rw [Nat.add_zero] at hstart
  rwa [Nat.add_assoc, hrun, hrun, hstart, quiet_localReg y hquiet] at hshown

/-- Every position is taken again, however long the execution was. -/
theorem exists_taken {ops : List Op} (h : Executes fontRom s.reset ops t) (y : Nat → Bus) {drawX drawY : Nat}
    (hX : drawX < 640) (hY : drawY < 480) :
    ∃ n, 0 < n ∧ (Interface.run fontRom y t n).clkdiv = false ∧
      (Interface.run fontRom y t n).hc = BitVec.ofNat 10 drawX ∧
      (Interface.run fontRom y t n).vc = BitVec.ofNat 10 drawY := by
  obtain ⟨bs, hbs⟩ := exists_edges h
  have hlate : bs.length < Scan.scanEdge (bs.length + 1) drawX drawY := by
    rw [Scan.scanEdge]
    omega
  obtain ⟨n, hn⟩ := Nat.exists_eq_add_of_lt hlate
  have htakes := Scan.takes_scanEdge fontRom (prepend bs y) s (show drawX < 800 by omega) (show drawY < 525 by omega)
    (bs.length + 1)
  have hrun : Interface.run fontRom (prepend bs y) s.reset (bs.length + (n + 1)) =
      Interface.run fontRom y t (n + 1) := by
    rw [hbs]
    exact run_prepend bs y s.reset (n + 1)
  rw [hn, Nat.add_assoc] at htakes
  refine ⟨n + 1, Nat.succ_pos n, ?_, ?_, ?_⟩
  · rw [← hrun]
    exact htakes.rising
  · rw [← hrun]
    exact htakes.drawX
  · rw [← hrun]
    exact htakes.drawY

end Scan

end ECE385.Display.Lines
