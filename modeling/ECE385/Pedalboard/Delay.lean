import Mathlib.Logic.Function.Basic
import ECE385.Pedalboard.Effects

namespace ECE385.Pedalboard.Delay

open Effects (Word Side)

/-- The dual-port block memory: a read address reaches the output register `q`
two edges later. A read that meets a write to its address returns `dontcare`. -/
structure Ram where
  mem : BitVec 15 → BitVec 16
  core : BitVec 16
  q : BitVec 16

def Ram.step (data : BitVec 16) (rdaddress wraddress : BitVec 15) (wren : Bool) (dontcare : BitVec 16)
    (r : Ram) : Ram where
  mem := if wren then Function.update r.mem wraddress data else r.mem
  core := if wren && rdaddress == wraddress then dontcare else r.mem rdaddress
  q := r.core

structure Line where
  writeadd : BitVec 15
  ram : Ram

def offset (delaytime : BitVec 3) : BitVec 15 := 0b000000010000000#15 <<< delaytime

def Line.readadd (delaytime : BitVec 3) (l : Line) : BitVec 15 := l.writeadd - offset delaytime

def sample (din : Word) : BitVec 16 := din.extractLsb' 15 16

def quarter (d : BitVec 16) : BitVec 16 := d.sshiftRight 2

def Line.writeData (feedback : Bool) (data : BitVec 16) (l : Line) : BitVec 16 :=
  if feedback then data + quarter l.ram.q else data

def pad (d : BitVec 16) : Word := 0#1 ++ d ++ 0b000000000000000#15

def out (enable : Bool) (din : Word) (q : BitVec 16) : Word :=
  if enable then pad (sample din) + pad (quarter q) else din

structure Inputs where
  enable : Bool
  feedback : Bool
  delaytime : BitVec 3
  din : Side → Word

structure State where
  line : Side → Line
  dout : Side → Word

/-- The left memory is written while LRCLK is high, the right one while it is low. -/
def wren (lrclk : Bool) : Side → Bool
  | .left => lrclk
  | .right => !lrclk

def clocked (lrclk : Bool) : Side := if lrclk then .left else .right

def Line.clk (i : Inputs) (data : BitVec 16) (wren : Bool) (dontcare : BitVec 16) (l : Line) : Line :=
  { l with
    ram := l.ram.step (l.writeData i.feedback data) (l.readadd i.delaytime) l.writeadd wren dontcare }

def Line.next (l : Line) : Line := { l with writeadd := l.writeadd + 1 }

def State.clk (i : Inputs) (lrclk : Bool) (dontcare : Side → BitVec 16) (s : State) : State :=
  { s with line := fun side =>
      (s.line side).clk i (sample (i.din side)) (wren lrclk side) (dontcare side) }

def State.edge (i : Inputs) (lrclk : Bool) (s : State) : State where
  line := Function.update s.line (clocked lrclk) (s.line (clocked lrclk)).next
  dout := Function.update s.dout (clocked lrclk)
    (out i.enable (i.din (clocked lrclk)) (s.line (clocked lrclk)).ram.q)

section Edges

variable (i : Inputs) (lrclk : Bool) (s : State)

theorem clk_line (dontcare : Side → BitVec 16) (side : Side) :
    (s.clk i lrclk dontcare).line side =
      (s.line side).clk i (sample (i.din side)) (wren lrclk side) (dontcare side) := rfl

theorem edge_line : (s.edge i lrclk).line (clocked lrclk) = (s.line (clocked lrclk)).next :=
  Function.update_self ..

theorem edge_dout : (s.edge i lrclk).dout (clocked lrclk) =
    out i.enable (i.din (clocked lrclk)) (s.line (clocked lrclk)).ram.q :=
  Function.update_self ..

theorem edge_line_other {side : Side} (h : side ≠ clocked lrclk) :
    (s.edge i lrclk).line side = s.line side :=
  Function.update_of_ne h ..

end Edges

theorem toNat_pad (d : BitVec 16) : (pad d).toNat = d.toNat * 2 ^ 15 := by
  have hhigh : (0#1 ++ d).toNat = d.toNat := by
    rw [BitVec.toNat_append, BitVec.toNat_zero, Nat.zero_shiftLeft, Nat.zero_or]
  have happend := BitVec.toNat_append (0#1 ++ d) 0#15
  rw [hhigh, BitVec.toNat_zero, Nat.or_zero, Nat.shiftLeft_eq] at happend
  exact happend

theorem sample_out (din : Word) (q : BitVec 16) :
    sample (out true din q) = sample din + quarter q := by
  apply BitVec.eq_of_toNat_eq
  have hq := (quarter q).isLt
  have hd := (sample din).isLt
  rw [out, if_pos rfl]
  generalize sample din = d at *
  rw [sample, BitVec.extractLsb'_toNat, BitVec.toNat_add, BitVec.toNat_add,
    toNat_pad, toNat_pad, Nat.shiftRight_eq_div_pow]
  omega

theorem low_out (din : Word) (q : BitVec 16) : (out true din q).extractLsb' 0 15 = 0#15 := by
  apply BitVec.eq_of_toNat_eq
  have hd := (sample din).isLt
  have hq := (quarter q).isLt
  rw [out, if_pos rfl, BitVec.extractLsb'_toNat, BitVec.toNat_add, toNat_pad, toNat_pad,
    Nat.shiftRight_eq_div_pow, BitVec.toNat_zero]
  omega

theorem readadd_ne (delaytime : BitVec 3) (l : Line) : l.readadd delaytime ≠ l.writeadd := by
  have hoffset : ∀ t : BitVec 3, offset t ≠ 0#15 := by decide
  intro h
  exact hoffset delaytime (sub_eq_self.mp h)

theorem clk_ram (i : Inputs) (data : BitVec 16) (wren : Bool) (dontcare : BitVec 16) (l : Line) :
    (l.clk i data wren dontcare).ram =
      ⟨if wren then Function.update l.ram.mem l.writeadd (l.writeData i.feedback data) else l.ram.mem,
        l.ram.mem (l.readadd i.delaytime), l.ram.core⟩ := by
  simp [Line.clk, Ram.step, readadd_ne]

theorem clk_congr {i i' : Inputs} (hfeedback : i.feedback = i'.feedback)
    (hdelaytime : i.delaytime = i'.delaytime) (data : BitVec 16) (wren : Bool) (u u' : BitVec 16) (l : Line) :
    l.clk i data wren u = l.clk i' data wren u' := by
  have hram := clk_ram i data wren u l
  rw [hfeedback, hdelaytime, ← clk_ram i' data wren u' l] at hram
  exact congrArg (Line.mk l.writeadd) hram

end ECE385.Pedalboard.Delay
