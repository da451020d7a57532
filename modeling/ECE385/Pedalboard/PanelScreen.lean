import ECE385.Clocked.Machine
import ECE385.Pedalboard.ControlPanel
import ECE385.Pedalboard.KeyWatch

namespace ECE385.Pedalboard.PanelScreen

open KeyWatch Tuning
open ScreenSaver (Read selected)

/-- One cycle of CLK: the keys (true when up), the switches, and whether the
software makes its next read in it. -/
structure Inputs where
  key0 : Bool
  key1 : Bool
  sw : BitVec 10
  poll : Bool

def Inputs.select (i : Inputs) : BitVec 3 := i.sw.extractLsb' 7 3

structure State where
  panel : ControlPanel.State
  screen : ScreenSaver.State
  key0 : Watch Bool
  key1 : Watch Bool
  sel : Watch (BitVec 3)

def powerUp (i : Inputs) : State :=
  ⟨ControlPanel.powerUp, ScreenSaver.start, ⟨i.key0, 10⟩, ⟨i.key1, 10⟩, ⟨i.select, 10⟩⟩

def State.see (i : Inputs) (s : State) : State :=
  { s with
    key0 := s.key0.see s.screen.next i.key0
    key1 := s.key1.see s.screen.next i.key1
    sel := s.sel.see s.screen.next i.select }

def State.read (i : Inputs) (s : State) : State :=
  { s with
    screen := s.screen.read i.key0 i.key1 i.sw
    key0 := s.key0.tick
    key1 := s.key1.tick
    sel := s.sel.tick }

def State.clk (i : Inputs) (s : State) : State :=
  { s with panel := s.panel.clk i.select i.key0 i.key1 }

def step (i : Inputs) (s : State) : State :=
  ((if i.poll then (s.see i).read i else s.see i)).clk i

abbrev run (x : Nat → Inputs) (n : Nat) : State := Clocked.Machine.run step x (powerUp (x 0)) n

/-- Every level that changes has been held for two complete passes. -/
@[mk_iff] structure Held (i : Inputs) (s : State) : Prop where
  key0 : i.key0 ≠ s.key0.level → s.key0.due = 0
  key1 : i.key1 ≠ s.key1.level → s.key1.due = 0
  sel : i.select ≠ s.sel.level → s.sel.due = 0

/-- The keys are not down together, and the selector moves only while both are up
and the software has counted every release. -/
@[mk_iff] structure Undisturbed (i : Inputs) (s : State) : Prop where
  apart : i.key0 = true ∨ i.key1 = true
  sel : i.select ≠ s.sel.level → s.key0.level = true ∧ s.key1.level = true ∧
    s.screen.key0Pressed = true ∧ s.screen.key1Pressed = true

instance (i : Inputs) (s : State) : Decidable (Held i s) := decidable_of_iff _ (held_iff i s).symm

instance (i : Inputs) (s : State) : Decidable (Undisturbed i s) := decidable_of_iff _ (undisturbed_iff i s).symm

@[mk_iff] structure Same (p : ControlPanel.State) (t : ScreenSaver.State) : Prop where
  gain : t.gainLevel = p.gain.toNat
  bitdepth : t.bitcrushLevel = p.bitdepth.toNat
  clip : t.overdrLevel = p.clip.toNat
  trem : t.tremoloLevel = p.trem.toNat
  delaytime : t.delayLevel = p.delaytime.toNat
  cutoff : t.lowpassLevel = p.cutoff.toNat

instance (p : ControlPanel.State) (t : ScreenSaver.State) : Decidable (Same p t) :=
  decidable_of_iff _ (same_iff p t).symm

end ECE385.Pedalboard.PanelScreen
