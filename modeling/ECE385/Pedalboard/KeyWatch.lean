import ECE385.Pedalboard.ScreenSaver
import Mathlib.Order.Basic
import Mathlib.Tactic.ByContra

namespace ECE385.Pedalboard.KeyWatch

open Tuning
open ScreenSaver (Read selected)

/-- The reads that remain of the current pass. -/
def rest : Read → Nat
  | .sw => 0
  | .key0 => 4
  | .key1 => 3
  | .key0Again => 2
  | .key1Again => 1

/-- A level with the reads still to be made until it has been held for two
complete passes. -/
structure Watch (α : Type) where
  level : α
  due : Nat

def Watch.see {α : Type} [DecidableEq α] (next : Read) (level : α) (w : Watch α) : Watch α :=
  if level = w.level then w else ⟨level, rest next + 10⟩

def Watch.tick {α : Type} (w : Watch α) : Watch α := { w with due := w.due - 1 }

abbrev Watch.released (w : Watch Bool) : Prop := w.level = true ∧ w.due = 0

theorem rest_le (r : Read) : rest r ≤ 4 := by cases r <;> decide

@[simp] theorem see_level {α : Type} [DecidableEq α] (next : Read) (level : α) (w : Watch α) :
    (w.see next level).level = level := by
  rw [Watch.see]
  split
  · rename_i h
    exact h.symm
  · rfl

theorem see_of_eq {α : Type} [DecidableEq α] {next : Read} {level : α} {w : Watch α} (h : level = w.level) :
    w.see next level = w := if_pos h

theorem see_of_ne {α : Type} [DecidableEq α] {next : Read} {level : α} {w : Watch α} (h : level ≠ w.level) :
    w.see next level = ⟨level, rest next + 10⟩ := if_neg h

/-- What is known of a key: after a change the software has taken note by its
read in the first complete pass. -/
structure Noted (look again next : Read) (w : Watch Bool) (pressed : Bool) : Prop where
  phase : w.due = 0 ∨ ∃ m, m ≤ 2 ∧ w.due = rest next + 5 * m
  seen : w.level = true → pressed = false → rest look + 5 ≤ w.due
  cleared : w.level = false → pressed = true → rest again + 5 ≤ w.due

section Noted

variable {look again next : Read} {w : Watch Bool} {pressed : Bool}

theorem Noted.see (h : Noted look again next w pressed) (level : Bool) :
    Noted look again next (w.see next level) pressed := by
  have hlook := rest_le look
  have hagain := rest_le again
  rw [Watch.see]
  split
  · exact h
  · refine ⟨.inr ⟨2, le_rfl, rfl⟩, fun _ _ => ?_, fun _ _ => ?_⟩
    · show rest look + 5 ≤ rest next + 10
      omega
    · show rest again + 5 ≤ rest next + 10
      omega

theorem Noted.moved (h : Noted look again next w pressed) (hdue : w.due = 0) : pressed = w.level := by
  cases hlevel : w.level with
  | true =>
      by_contra hp
      have := h.seen hlevel (Bool.eq_false_of_not_eq_true hp)
      omega
  | false =>
      by_contra hp
      have := h.cleared hlevel (Bool.eq_true_of_not_eq_false hp)
      omega

theorem Noted.due_le (h : Noted look again next w pressed) : w.due ≤ rest next + 10 := by
  rcases h.phase with h0 | ⟨m, hm, hdue⟩ <;> omega

theorem Noted.next_eq (h : Noted look again next w pressed) {r : Read} (hdue : w.due = rest r + 5) : next = r := by
  rcases h.phase with h0 | ⟨m, -, hm⟩
  · omega
  · cases next <;> cases r <;> simp only [rest] at hm hdue <;> first | rfl | omega

/-- What a read does with the flag of a key: it looks for the key up at one read
and for the key down at another. -/
def note (look again next : Read) (level pressed : Bool) : Bool :=
  if next = look then level || pressed else if next = again then level && pressed else pressed

def after : Read → Read
  | .sw => .key0
  | .key0 => .key1
  | .key1 => .key0Again
  | .key0Again => .key1Again
  | .key1Again => .sw

theorem rest_after (r : Read) : rest r = rest (after r) + 1 ∨ rest r = 0 ∧ rest (after r) = 4 := by
  cases r <;> decide

theorem note_up {level : Bool} (hlevel : level = true) (h : note look again next level pressed = false) :
    next ≠ look ∧ pressed = false := by
  subst level
  by_cases hlook : next = look
  · simp [note, hlook] at h
  · refine ⟨hlook, ?_⟩
    simpa [note, hlook] using h

theorem Noted.tick (h : Noted look again next w pressed) (hne : look ≠ again) :
    Noted look again (after next) w.tick (note look again next w.level pressed) := by
  have hkeep {n : Nat} (hle : n ≤ w.due) (hne : w.due ≠ n) : n ≤ w.due - 1 := by omega
  constructor
  · rcases h.phase with h0 | ⟨m, hm, hdue⟩
    · exact .inl (by simp only [Watch.tick, h0])
    · simp only [Watch.tick, hdue]
      rcases rest_after next with hr | ⟨hr, hr'⟩
      · exact .inr ⟨m, hm, by omega⟩
      · cases m with
        | zero => exact .inl (by omega)
        | succ m => exact .inr ⟨m, by omega, by omega⟩
  · intro hlevel hp
    have hlevel : w.level = true := hlevel
    obtain ⟨hlook, hp'⟩ := note_up hlevel hp
    exact hkeep (h.seen hlevel hp') fun hdue => hlook (h.next_eq hdue)
  · intro hlevel hp
    have hlevel : w.level = false := hlevel
    have hagain : next ≠ again := by
      rintro rfl
      simp [note, hlevel, hne.symm] at hp
    have hp' : pressed = true := by simpa [note, hagain, hlevel] using hp
    exact hkeep (h.cleared hlevel hp') fun hdue => hagain (h.next_eq hdue)

end Noted

section Reading

theorem read_next (key0 key1 : Bool) (sw : BitVec 10) (t : ScreenSaver.State) :
    (t.read key0 key1 sw).next = after t.next := by
  rw [ScreenSaver.State.read]
  cases t.next with
  | sw => rfl
  | _ => dsimp only; split <;> rfl

theorem read_key0Pressed (key0 key1 : Bool) (sw : BitVec 10) (t : ScreenSaver.State) :
    (t.read key0 key1 sw).key0Pressed = note .key0 .key0Again t.next key0 t.key0Pressed := by
  rw [ScreenSaver.State.read]
  cases t.next with
  | sw => rfl
  | _ => cases key0 <;> cases key1 <;> cases t.key0Pressed <;> cases t.key1Pressed <;> rfl

theorem read_key1Pressed (key0 key1 : Bool) (sw : BitVec 10) (t : ScreenSaver.State) :
    (t.read key0 key1 sw).key1Pressed = note .key1 .key1Again t.next key1 t.key1Pressed := by
  rw [ScreenSaver.State.read]
  cases t.next with
  | sw => rfl
  | _ => cases key0 <;> cases key1 <;> cases t.key0Pressed <;> cases t.key1Pressed <;> rfl

theorem read_select (key0 key1 : Bool) (sw : BitVec 10) (t : ScreenSaver.State) :
    (t.read key0 key1 sw).select = if t.next = .sw then selected sw.toNat else t.select := by
  rw [ScreenSaver.State.read]
  cases t.next with
  | sw => rfl
  | _ => cases key0 <;> cases key1 <;> cases t.key0Pressed <;> cases t.key1Pressed <;> rfl

theorem read_level (key0 key1 : Bool) (sw : BitVec 10) (t : ScreenSaver.State) :
    (t.read key0 key1 sw).level =
      if t.next = .key0 ∧ key0 = true ∧ t.key0Pressed = false then t.up.level
      else if t.next = .key1 ∧ key1 = true ∧ t.key1Pressed = false then t.down.level
      else t.level := by
  rw [ScreenSaver.State.read]
  cases t.next with
  | sw => rfl
  | _ => cases key0 <;> cases key1 <;> cases t.key0Pressed <;> cases t.key1Pressed <;> rfl

end Reading

end ECE385.Pedalboard.KeyWatch
