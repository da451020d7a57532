import ECE385.Display.Lines

namespace ECE385.Display.Sync

open Clocked.Machine (run_add)
open Cell Interface Rendering Scan

/-- The interface with the two registers that drive the monitor's pulses. -/
structure Monitor where
  interface : State
  hs : Bool
  vs : Bool

-- the sums have 32 bits, so they do not wrap
def nextHs (hc : BitVec 10) : Bool := !(0b1010010000 ≤ hc.toNat + 1 && hc.toNat + 1 < 0b1011110000)

def nextVs (vc : BitVec 10) : Bool := !(vc.toNat + 1 == 0b111101010 || vc.toNat + 1 == 0b111101011)

def Monitor.edge (fontRom : BitVec 11 → BitVec 8) (b : Bus) (m : Monitor) : Monitor where
  interface := m.interface.edge fontRom b
  hs := if !m.interface.clkdiv then nextHs m.interface.hc else m.hs
  vs := if !m.interface.clkdiv then nextVs m.interface.vc else m.vs

def Monitor.reset (m : Monitor) : Monitor := ⟨m.interface.reset, false, false⟩

abbrev run (fontRom : BitVec 11 → BitVec 8) (x : Nat → Bus) (m : Monitor) (n : Nat) : Monitor :=
  Clocked.Machine.run (Monitor.edge fontRom) x m n

section Abstract

/-- One direction of a frame: what is shown, then the front porch, the pulse and the
back porch. -/
structure Timing where
  shown : Nat
  front : Nat
  pulse : Nat
  back : Nat

def Timing.total (t : Timing) : Nat := t.shown + t.front + t.pulse + t.back

/-- The level of the sync line, low in the pulse. -/
def Timing.level (t : Timing) (i : Nat) : Bool :=
  !decide (t.shown + t.front ≤ i ∧ i < t.shown + t.front + t.pulse)

-- the colour is a register too, so the picture stands one position later than the counters
def horizontal : Timing := ⟨640, 15, 96, 49⟩

-- the counter does not move on with every position, so adding one takes the pulse a line
-- ahead of the 490 and 491 that were meant
def vertical : Timing := ⟨480, 9, 2, 34⟩

theorem horizontal_level (i : Nat) : horizontal.level i = !decide (655 ≤ i ∧ i < 751) := rfl

theorem vertical_level (i : Nat) : vertical.level i = !decide (489 ≤ i ∧ i < 491) := rfl

structure Signal where
  rgb : Rgb
  hs : Bool
  vs : Bool

/-- What the monitor gets for a position: black outside of the picture. -/
def frame (picture : Nat → Nat → Rgb) (drawX drawY : Nat) : Signal where
  rgb := if drawX < horizontal.shown ∧ drawY < vertical.shown then picture drawX drawY else ⟨0, 0, 0⟩
  hs := horizontal.level drawX
  vs := vertical.level drawY

end Abstract

def Monitor.signal (m : Monitor) : Signal := ⟨m.interface.rgb, m.hs, m.vs⟩

section Run

variable (fontRom : BitVec 11 → BitVec 8) (x : Nat → Bus) (m : Monitor)

theorem run_next (n : Nat) : run fontRom x m (n + 1) = (run fontRom x m n).edge fontRom (x n) := rfl

theorem run_interface (n : Nat) : (run fontRom x m n).interface = Interface.run fontRom x m.interface n := by
  induction n with
  | zero => rfl
  | succ n ih =>
      rw [run_next, Monitor.edge, ih]
      rfl

theorem nextHs_level {drawX : Nat} (h : drawX < 800) : nextHs (BitVec.ofNat 10 drawX) = horizontal.level drawX := by
  have hdrawX : (BitVec.ofNat 10 drawX).toNat = drawX := by
    rw [BitVec.toNat_ofNat]
    omega
  rw [nextHs, hdrawX, horizontal_level, ← Bool.decide_and]
  refine congrArg (!·) (decide_eq_decide.mpr ?_)
  omega

theorem nextVs_level {drawY : Nat} (h : drawY < 525) : nextVs (BitVec.ofNat 10 drawY) = vertical.level drawY := by
  have hdrawY : (BitVec.ofNat 10 drawY).toNat = drawY := by
    rw [BitVec.toNat_ofNat]
    omega
  rw [nextVs, hdrawY, vertical_level]
  refine congrArg (!·) (Bool.eq_iff_iff.mpr ?_)
  rw [Bool.or_eq_true, beq_iff_eq, beq_iff_eq, decide_eq_true_iff]
  omega

theorem edge_signal {b : Bus} {m : Monitor} (h : m.interface.clkdiv = true) :
    (m.edge fontRom b).signal = m.signal := by
  have hrgb : (m.interface.edge fontRom b).rgb = m.interface.rgb := by
    show (if !m.interface.clkdiv then _ else m.interface.rgb) = m.interface.rgb
    rw [h]
    rfl
  rw [Monitor.signal, Monitor.signal, Monitor.edge, hrgb, h]
  rfl

variable {x m} {n drawX drawY : Nat} (hX : drawX < 800) (hY : drawY < 525)
  (h : Takes fontRom x m.interface n drawX drawY)

include hX hY h

theorem taken_levels : (run fontRom x m.reset (n + 1)).hs = horizontal.level drawX ∧
    (run fontRom x m.reset (n + 1)).vs = vertical.level drawY := by
  have hinterface := run_interface fontRom x m.reset n
  have hrising : (run fontRom x m.reset n).interface.clkdiv = false := hinterface ▸ h.rising
  have hhc : (run fontRom x m.reset n).interface.hc = BitVec.ofNat 10 drawX := hinterface ▸ h.drawX
  have hvc : (run fontRom x m.reset n).interface.vc = BitVec.ofNat 10 drawY := hinterface ▸ h.drawY
  rw [run_next, Monitor.edge, hrising, hhc, hvc]
  exact ⟨nextHs_level hX, nextVs_level hY⟩

/-- A position outside of the picture is black, whatever is in the registers. -/
theorem taken_blank (hout : ¬(drawX < 640 ∧ drawY < 480)) :
    (Interface.run fontRom x m.interface.reset (n + 1)).rgb = ⟨0, 0, 0⟩ := by
  have hdisplay : (!(640 ≤ (BitVec.ofNat 10 drawX).toNat || 480 ≤ (BitVec.ofNat 10 drawY).toNat)) = false := by
    rw [BitVec.toNat_ofNat, BitVec.toNat_ofNat, Nat.mod_eq_of_lt (by omega), Nat.mod_eq_of_lt (by omega),
      ← Bool.decide_or, Bool.not_eq_false', decide_eq_true_iff]
    omega
  rw [h.rgb, pixel, hdisplay]
  rfl

end Run

section Frames

variable (fontRom : BitVec 11 → BitVec 8) (x : Nat → Bus) (m : Monitor)

theorem takes_position (s : State) (p : Nat) : Takes fontRom x s (2 * p) (p % 800) (p / 800 % 525) := by
  have hedge : scanEdge (p / 420000) (p % 800) (p / 800 % 525) = 2 * p := by
    rw [scanEdge]
    omega
  rw [← hedge]
  exact takes_scanEdge fontRom x s (Nat.mod_lt _ (by decide)) (Nat.mod_lt _ (by decide)) _

/-- The signal of a position stands for two edges. -/
theorem run_signal (n : Nat) :
    (run fontRom x m.reset (n + 1)).signal = (run fontRom x m.reset (2 * (n / 2) + 1)).signal := by
  rcases Nat.mod_two_eq_zero_or_one n with heven | hodd
  · rw [show 2 * (n / 2) = n by omega]
  · have hn : n = 2 * (n / 2) + 1 := by omega
    have hclk : (run fontRom x m.reset n).interface.clkdiv = true := by
      rw [run_interface]
      exact (scanning_run fontRom x m.interface n).clkdiv.trans (decide_eq_true hodd)
    rw [← hn, run_next]
    exact edge_signal fontRom hclk

theorem quiet_palette (s : State) {a n : Nat} (hle : a ≤ n)
    (hquiet : ∀ k, a ≤ k → k < n → (x k).wren = false) :
    (Interface.run fontRom x s n).localReg = (Interface.run fontRom x s a).localReg := by
  obtain ⟨k, rfl⟩ := Nat.exists_eq_add_of_le hle
  rw [Interface.run, run_add]
  exact Lines.quiet_localReg _ fun i hi => hquiet (a + i) (Nat.le_add_right a i) (Nat.add_lt_add_left hi a)

/-- The monitor gets frame after frame of 525 lines of 800 positions, two edges a
position, whatever happens on the bus. A position off the picture is black. While
nothing is written the frames show the memory and the palette. -/
theorem monitor_receives (n : Nat) :
    ((run fontRom x m.reset (n + 1)).hs = horizontal.level (n / 2 % horizontal.total) ∧
      (run fontRom x m.reset (n + 1)).vs = vertical.level (n / 2 / horizontal.total % vertical.total)) ∧
    (¬(n / 2 % horizontal.total < horizontal.shown ∧ n / 2 / horizontal.total % vertical.total < vertical.shown) →
      (run fontRom x m.reset (n + 1)).interface.rgb = ⟨0, 0, 0⟩) ∧
    ∀ a, a + 2 ≤ n → (∀ k, a ≤ k → k < n → (x k).wren = false) →
      (run fontRom x m.reset (n + 1)).signal =
        frame (picture fontRom (run fontRom x m.reset a).interface.mem (run fontRom x m.reset a).interface.localReg)
          (n / 2 % horizontal.total) (n / 2 / horizontal.total % vertical.total) := by
  have htakes := takes_position fontRom x m.interface (n / 2)
  have hX : n / 2 % 800 < 800 := Nat.mod_lt _ (by decide)
  have hY : n / 2 / 800 % 525 < 525 := Nat.mod_lt _ (by decide)
  obtain ⟨hhs, hvs⟩ := taken_levels fontRom hX hY htakes
  have hsignal := run_signal fontRom x m n
  have hrgb : (run fontRom x m.reset (n + 1)).interface.rgb =
      (Interface.run fontRom x m.interface.reset (2 * (n / 2) + 1)).rgb := by
    have hinterface := run_interface fontRom x m.reset (2 * (n / 2) + 1)
    exact (congrArg Signal.rgb hsignal).trans (congrArg State.rgb hinterface)
  have hblank := taken_blank fontRom hX hY htakes
  refine ⟨⟨(congrArg Signal.hs hsignal).trans hhs, (congrArg Signal.vs hsignal).trans hvs⟩,
    fun hout => hrgb.trans (hblank hout), fun a ha hquiet => ?_⟩
  rw [hsignal, Monitor.signal, frame, hhs, hvs, run_interface, run_interface fontRom x m.reset a]
  by_cases hin : n / 2 % horizontal.total < horizontal.shown ∧
      n / 2 / horizontal.total % vertical.total < vertical.shown
  · have hidle : Quiet x a (2 * (n / 2)) := by
      intro k hk hlt hw
      exact Bool.noConfusion ((hquiet k hk (by omega)).symm.trans hw)
    have hpicture := taken_quiet fontRom m.interface hin.1 hin.2 (show a < 2 * (n / 2) by omega) hidle htakes
    have hpalette := quiet_palette fontRom x m.interface.reset (show a ≤ 2 * (n / 2) by omega)
      fun k hk hlt => hquiet k hk (by omega)
    rw [hpalette] at hpicture
    rw [if_pos hin]
    exact congrArg (fun c => (⟨c, _, _⟩ : Signal)) hpicture
  · rw [if_neg hin]
    exact congrArg (fun c => (⟨c, _, _⟩ : Signal)) (hblank hin)

end Frames

end ECE385.Display.Sync
