import ECE385.Pedalboard.Tuning

namespace ECE385.Pedalboard.ScreenSaver

open Tuning

/-- The five reads of a pass of the main loop, in order. -/
inductive Read
  | sw | key0 | key1 | key0Again | key1Again
  deriving DecidableEq

structure State where
  next : Read
  select : Nat
  key0Pressed : Bool
  key1Pressed : Bool
  gainLevel : Nat
  bitcrushLevel : Nat
  overdrLevel : Nat
  tremoloLevel : Nat
  delayLevel : Nat
  lowpassLevel : Nat

def start : State := ⟨.sw, 0, false, false, 0, 0, 0, 0, 0, 0⟩

def mask (temp i : Nat) : Nat := temp / 2 ^ i % 2

def selected (temp : Nat) : Nat := mask temp 9 * 4 + mask temp 8 * 2 + mask temp 7

def State.up (s : State) : State :=
  { s with
    gainLevel := if s.select = 0 ∧ s.gainLevel < 3 then s.gainLevel + 1 else s.gainLevel
    bitcrushLevel := if s.select = 1 ∧ s.bitcrushLevel < 7 then s.bitcrushLevel + 1 else s.bitcrushLevel
    overdrLevel := if s.select = 2 ∧ s.overdrLevel < 7 then s.overdrLevel + 1 else s.overdrLevel
    delayLevel := if s.select = 3 ∧ s.delayLevel < 7 then s.delayLevel + 1 else s.delayLevel
    tremoloLevel := if s.select = 4 ∧ s.tremoloLevel < 3 then s.tremoloLevel + 1 else s.tremoloLevel
    lowpassLevel := if s.select = 5 ∧ s.lowpassLevel < 3 then s.lowpassLevel + 1 else s.lowpassLevel }

def State.down (s : State) : State :=
  { s with
    gainLevel := if s.select = 0 ∧ s.gainLevel > 0 then s.gainLevel - 1 else s.gainLevel
    bitcrushLevel := if s.select = 1 ∧ s.bitcrushLevel > 0 then s.bitcrushLevel - 1 else s.bitcrushLevel
    overdrLevel := if s.select = 2 ∧ s.overdrLevel > 0 then s.overdrLevel - 1 else s.overdrLevel
    delayLevel := if s.select = 3 ∧ s.delayLevel > 0 then s.delayLevel - 1 else s.delayLevel
    tremoloLevel := if s.select = 4 ∧ s.tremoloLevel > 0 then s.tremoloLevel - 1 else s.tremoloLevel
    lowpassLevel := if s.select = 5 ∧ s.lowpassLevel > 0 then s.lowpassLevel - 1 else s.lowpassLevel }

/-- One read through a PIO and the code up to the next one. The keys read 1 when
they are up. The text that a pass draws is left out. -/
def State.read (key0 key1 : Bool) (sw : BitVec 10) (s : State) : State :=
  match s.next with
  | .sw => { s with next := .key0, select := selected sw.toNat }
  | .key0 =>
      let s := { s with next := .key1 }
      if key0 && !s.key0Pressed then { s.up with key0Pressed := true } else s
  | .key1 =>
      let s := { s with next := .key0Again }
      if key1 && !s.key1Pressed then { s.down with key1Pressed := true } else s
  | .key0Again =>
      let s := { s with next := .key1Again }
      if !key0 && s.key0Pressed then { s with key0Pressed := false } else s
  | .key1Again =>
      let s := { s with next := .sw }
      if !key1 && s.key1Pressed then { s with key1Pressed := false } else s

def State.level (s : State) (p : BitVec 3) : Nat :=
  match p.toNat with
  | 0 => s.gainLevel
  | 1 => s.bitcrushLevel
  | 2 => s.overdrLevel
  | 3 => s.delayLevel
  | 4 => s.tremoloLevel
  | 5 => s.lowpassLevel
  | _ => 0

theorem selected_eq (sw : BitVec 10) : selected sw.toNat = (sw.extractLsb' 7 3).toNat := by
  have hlt := sw.isLt
  rw [BitVec.extractLsb'_toNat, Nat.shiftRight_eq_div_pow]
  unfold selected mask
  omega

theorem eq_select_iff {s : State} {sel : BitVec 3} (hsel : s.select = sel.toNat) (p : BitVec 3) :
    p = sel ↔ s.select = p.toNat := by
  rw [hsel, ← BitVec.toNat_inj]
  exact eq_comm

theorem level_up {s : State} {sel : BitVec 3} (hsel : s.select = sel.toNat) :
    s.up.level = inc sel s.level := by
  funext p
  have hp := eq_select_iff hsel p
  rw [inc]
  simp only [hp]
  obtain rfl | rfl | rfl | rfl | rfl | rfl | rfl | rfl := selector_cases p
  · rfl
  · rfl
  · rfl
  · rfl
  · rfl
  · rfl
  · exact (if_neg fun h => Nat.not_lt_zero _ h.2).symm
  · exact (if_neg fun h => Nat.not_lt_zero _ h.2).symm

theorem level_down {s : State} {sel : BitVec 3} (hsel : s.select = sel.toNat) :
    s.down.level = dec sel s.level := by
  have hguard (c : Prop) [Decidable c] (n : Nat) :
      (if c ∧ n > 0 then n - 1 else n) = if c then n - 1 else n := by
    by_cases hc : c <;> simp [hc]
    omega
  funext p
  have hp := eq_select_iff hsel p
  rw [dec]
  simp only [hp]
  obtain rfl | rfl | rfl | rfl | rfl | rfl | rfl | rfl := selector_cases p
  · exact hguard _ s.gainLevel
  · exact hguard _ s.bitcrushLevel
  · exact hguard _ s.overdrLevel
  · exact hguard _ s.delayLevel
  · exact hguard _ s.tremoloLevel
  · exact hguard _ s.lowpassLevel
  · exact (ite_self 0).symm
  · exact (ite_self 0).symm

end ECE385.Pedalboard.ScreenSaver
