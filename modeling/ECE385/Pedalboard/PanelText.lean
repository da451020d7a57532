import ECE385.Display.Lines
import ECE385.Pedalboard.ScreenSaver

namespace ECE385.Pedalboard.PanelText

open Display.Lines
open Display.Palette (Op)
open ScreenSaver (mask)

def decimal (n : Nat) : List (BitVec 8) := (Nat.toDigits 10 n).map fun c => BitVec.ofNat 8 c.toNat

/-- What sprintf leaves in `color_string`, up to the NUL. -/
def levelText (label : String) (on level top shown : Nat) : List (BitVec 8) :=
  bytes label ++
    if on = 0 then bytes "OFF" else if level = top then bytes "MAX" else decimal shown ++ bytes "  "

section Text

variable (temp : Nat) (s : ScreenSaver.State)

def gainText := levelText "Gain Level: " (mask temp 0) s.gainLevel 3 s.gainLevel
def bitcrushText := levelText "Bitcrush Level: " (mask temp 1) s.bitcrushLevel 7 (s.bitcrushLevel + 1)
def overdrText := levelText "Overdrive Level: " (mask temp 2) s.overdrLevel 7 (s.overdrLevel + 1)
def delayText := levelText "Delay Level: " (mask temp 3) s.delayLevel 7 (s.delayLevel + 1)
def tremoloText := levelText "Tremolo Level: " (mask temp 4) s.tremoloLevel 3 (s.tremoloLevel + 1)
def lowpassText := levelText "Low Pass Level: " (mask temp 5) s.lowpassLevel 3 (s.lowpassLevel + 1)

def fg : BitVec 8 := 1
def bg : BitVec 8 := 6

def lines : List Line :=
  [⟨10, 6, bg, fg, gainText temp s⟩, ⟨10, 14, bg, fg, bitcrushText temp s⟩, ⟨10, 22, bg, fg, overdrText temp s⟩,
    ⟨50, 6, bg, fg, delayText temp s⟩, ⟨50, 14, bg, fg, tremoloText temp s⟩, ⟨50, 22, bg, fg, lowpassText temp s⟩]

end Text

structure Inputs where
  key0 : Bool
  key1 : Bool
  sw : BitVec 10

/-- The main loop with the switches of its present pass. -/
structure State where
  loop : ScreenSaver.State
  temp : Nat

def start : State := ⟨ScreenSaver.start, 0⟩

def State.read (i : Inputs) (s : State) : State where
  loop := s.loop.read i.key0 i.key1 i.sw
  temp := if s.loop.next = .sw then i.sw.toNat else s.temp

def State.lines (s : State) : List Line := PanelText.lines s.temp s.loop

/-- A pass draws all its lines after the read that may count KEY1. -/
def State.drawn (i : Inputs) (s : State) : List Line :=
  if s.loop.next = .key1 then (s.read i).lines else []

abbrev state (x : Nat → Inputs) (n : Nat) : State := Clocked.Machine.run State.read x start n

def drawings (x : Nat → Inputs) : Nat → List Line
  | 0 => []
  | n + 1 => drawings x n ++ (state x n).drawn (x n)

/-- What the program has done to the interface by the end of its first `n` reads. -/
def textVGAColorScreenSaver (x : Nat → Inputs) (n : Nat) : List Op := program (drawings x n)

section Level

theorem length_decimal {n : Nat} (h : n < 10) : (decimal n).length = 1 := by
  revert n
  decide

theorem decimal_ne_zero {n : Nat} (h : n < 10) : ∀ c ∈ decimal n, c ≠ 0 := by
  revert n
  decide

variable {label : String} {on level top shown : Nat} (h : level ≠ top → shown < 10)

include h

/-- Whatever the level, the text is as long as the one that it replaces. -/
theorem length_levelText : (levelText label on level top shown).length = (bytes label).length + 3 := by
  rw [levelText, List.length_append]
  split
  · rfl
  split
  · rfl
  · rename_i hlevel
    rw [List.length_append, length_decimal (h hlevel)]
    rfl

theorem levelText_ne_zero (hlabel : ∀ c ∈ bytes label, c ≠ 0) : ∀ c ∈ levelText label on level top shown, c ≠ 0 := by
  intro c hc
  rcases List.mem_append.mp hc with hc | hc
  · exact hlabel c hc
  have hoff : ∀ c ∈ bytes "OFF", c ≠ 0 := by decide
  have hmax : ∀ c ∈ bytes "MAX", c ≠ 0 := by decide
  have hblank : ∀ c ∈ bytes "  ", c ≠ 0 := by decide
  split at hc
  · exact hoff c hc
  split at hc
  · exact hmax c hc
  · rename_i hlevel
    rcases List.mem_append.mp hc with hc | hc
    · exact decimal_ne_zero (h hlevel) c hc
    · exact hblank c hc

end Level

structure InRange (s : ScreenSaver.State) : Prop where
  gain : s.gainLevel ≤ 3
  bitcrush : s.bitcrushLevel ≤ 7
  overdr : s.overdrLevel ≤ 7
  delay : s.delayLevel ≤ 7
  tremolo : s.tremoloLevel ≤ 3
  lowpass : s.lowpassLevel ≤ 3

section InRange

variable {s : ScreenSaver.State} (h : InRange s)

theorem le_of_up {c : Prop} [Decidable c] {n top : Nat} (hn : n ≤ top) :
    (if c ∧ n < top then n + 1 else n) ≤ top := by
  split
  · rename_i hup
    exact hup.2
  · exact hn

theorem le_of_down {c : Prop} [Decidable c] {n top : Nat} (hn : n ≤ top) :
    (if c ∧ n > 0 then n - 1 else n) ≤ top := by
  split
  · exact Nat.le_trans (Nat.sub_le n 1) hn
  · exact hn

include h

theorem InRange.up : InRange s.up :=
  ⟨le_of_up h.gain, le_of_up h.bitcrush, le_of_up h.overdr, le_of_up h.delay, le_of_up h.tremolo, le_of_up h.lowpass⟩

theorem InRange.down : InRange s.down :=
  ⟨le_of_down h.gain, le_of_down h.bitcrush, le_of_down h.overdr, le_of_down h.delay, le_of_down h.tremolo,
    le_of_down h.lowpass⟩

theorem InRange.read (key0 key1 : Bool) (sw : BitVec 10) : InRange (s.read key0 key1 sw) := by
  unfold ScreenSaver.State.read
  cases s.next with
  | sw => exact ⟨h.gain, h.bitcrush, h.overdr, h.delay, h.tremolo, h.lowpass⟩
  | key0 =>
      have hup := h.up
      dsimp only
      split
      · exact ⟨hup.gain, hup.bitcrush, hup.overdr, hup.delay, hup.tremolo, hup.lowpass⟩
      · exact ⟨h.gain, h.bitcrush, h.overdr, h.delay, h.tremolo, h.lowpass⟩
  | key1 =>
      have hdown := h.down
      dsimp only
      split
      · exact ⟨hdown.gain, hdown.bitcrush, hdown.overdr, hdown.delay, hdown.tremolo, hdown.lowpass⟩
      · exact ⟨h.gain, h.bitcrush, h.overdr, h.delay, h.tremolo, h.lowpass⟩
  | key0Again =>
      dsimp only
      split <;> exact ⟨h.gain, h.bitcrush, h.overdr, h.delay, h.tremolo, h.lowpass⟩
  | key1Again =>
      dsimp only
      split <;> exact ⟨h.gain, h.bitcrush, h.overdr, h.delay, h.tremolo, h.lowpass⟩

end InRange

theorem inRange_state (x : Nat → Inputs) (n : Nat) : InRange (state x n).loop :=
  Clocked.Machine.run_invariant (fun _ (s : State) => InRange s.loop)
    ⟨Nat.zero_le _, Nat.zero_le _, Nat.zero_le _, Nat.zero_le _, Nat.zero_le _, Nat.zero_le _⟩
    (fun n _ h => h.read (x n).key0 (x n).key1 (x n).sw) n

end ECE385.Pedalboard.PanelText
