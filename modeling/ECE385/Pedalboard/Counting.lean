import ECE385.Clocked.Machine
import ECE385.Pedalboard.ControlPanel

namespace ECE385.Pedalboard.Counting

open ControlPanel Tuning

structure Inputs where
  select : BitVec 3
  button0 : Bool
  button1 : Bool

def step (i : Inputs) (s : State) : State := s.clk i.select i.button0 i.button1

abbrev run (x : Nat → Inputs) (s : State) (n : Nat) : State := Clocked.Machine.run step x s n

/-- When a key is held, cycle `t` of the trace at `t + 2`. Its registers stand for
the two cycles before the trace. -/
def history (first second : Bool) (key : Nat → Bool) : Nat → Bool
  | 0 => second
  | 1 => first
  | t + 2 => key t

def up (x : Nat → Inputs) (s : State) : Nat → Bool := history s.up1 s.up2 fun t => !(x t).button0

def down (x : Nat → Inputs) (s : State) : Nat → Bool := history s.down1 s.down2 fun t => !(x t).button1

def both (x : Nat → Inputs) (s : State) (t : Nat) : Bool := up x s t && down x s t

def starts (key : Nat → Bool) (t : Nat) : Bool := key (t + 1) && !key t

/-- The levels as the trace says, cycle by cycle. -/
def levels (x : Nat → Inputs) (s : State) : Nat → Levels
  | 0 => s.level
  | t + 1 =>
      let raised := if starts (up x s) t then inc (x t).select (levels x s t) else levels x s t
      if both x s (t + 2) then clear (x t).select (levels x s t)
      else if starts (down x s) t then dec (x t).select raised
      else raised

/-- Every interval with both keys held lasts two cycles or more. -/
def Long (x : Nat → Inputs) (s : State) : Prop :=
  ∀ t, both x s (t + 1) = true → both x s t = true ∨ both x s (t + 2) = true

/-- The registers of a key at cycle `t`: the second one tells when the first is set. -/
structure Synced (key : Nat → Bool) (t : Nat) (key1 key2 : Bool) : Prop where
  first : key1 = key (t + 1)
  second : key1 = true → key2 = key t

section Synced

variable {key : Nat → Bool} {t : Nat} {key1 key2 : Bool} (h : Synced key t key1 key2)

include h

theorem Synced.starts : (key1 && !key2) = starts key t := by
  rw [Counting.starts, ← h.first]
  cases hfirst : key1 with
  | false => rfl
  | true => rw [h.second hfirst]

theorem Synced.clk : Synced key (t + 1) (key (t + 2)) (key (t + 2) && key1) := by
  refine ⟨rfl, fun hkey => ?_⟩
  rw [hkey, Bool.true_and, h.first]

end Synced

section Run

variable (x : Nat → Inputs) (s : State)

theorem synced_run (t : Nat) : Synced (up x s) t (run x s t).up1 (run x s t).up2 ∧
    Synced (down x s) t (run x s t).down1 (run x s t).down2 := by
  induction t with
  | zero => exact ⟨⟨rfl, fun _ => rfl⟩, ⟨rfl, fun _ => rfl⟩⟩
  | succ t ih => exact ⟨ih.1.clk, ih.2.clk⟩

theorem add_run (t : Nat) : (run x s t).add = starts (up x s) t := (synced_run x s t).1.starts

theorem subtract_run (t : Nat) : (run x s t).subtract = starts (down x s) t := (synced_run x s t).2.starts

variable {x s}

/-- Two presses cannot start together, or both keys would be held for one cycle. -/
theorem Long.apart (h : Long x s) {t : Nat} (hboth : both x s (t + 2) = false) :
    (starts (up x s) t && starts (down x s) t) = false := by
  rw [Bool.eq_false_iff]
  intro hstarts
  obtain ⟨hup, hdown⟩ := Bool.and_eq_true_iff.mp hstarts
  obtain ⟨hup, hupBefore⟩ := Bool.and_eq_true_iff.mp hup
  obtain ⟨hdown, _⟩ := Bool.and_eq_true_iff.mp hdown
  rcases h t (Bool.and_eq_true_iff.mpr ⟨hup, hdown⟩) with hbefore | hafter
  · rw [both, (Bool.not_eq_true' _).mp hupBefore] at hbefore
    exact Bool.noConfusion hbefore
  · rw [hboth] at hafter
    exact Bool.noConfusion hafter

theorem level_run (h : Long x s) (t : Nat) : (run x s t).level = levels x s t := by
  induction t with
  | zero => rfl
  | succ t ih =>
      rw [run, Clocked.Machine.run_succ, levels]
      cases hboth : both x s (t + 2) with
      | true =>
          rw [if_pos rfl, ← ih]
          exact level_clk_both _ _ hboth
      | false =>
          have hapart := h.apart hboth
          have hclk := level_clk (x t).select (run x s t) hboth (by rw [add_run, subtract_run, hapart])
          rw [State.counted, add_run, subtract_run, ih] at hclk
          refine hclk.trans ?_
          cases hadd : starts (up x s) t with
          | true =>
              rw [hadd, Bool.true_and] at hapart
              simp [hapart]
          | false => simp

theorem levels_quiet {t : Nat} (hboth : both x s (t + 2) = false) (hup : starts (up x s) t = false)
    (hdown : starts (down x s) t = false) : levels x s (t + 1) = levels x s t := by
  rw [levels, hboth, hup, hdown]
  rfl

theorem levels_up {t : Nat} (hboth : both x s (t + 2) = false) (hup : starts (up x s) t = true)
    (hdown : starts (down x s) t = false) : levels x s (t + 1) = inc (x t).select (levels x s t) := by
  rw [levels, hboth, hup, hdown]
  rfl

theorem levels_down {t : Nat} (hboth : both x s (t + 2) = false) (hup : starts (up x s) t = false)
    (hdown : starts (down x s) t = true) : levels x s (t + 1) = dec (x t).select (levels x s t) := by
  rw [levels, hboth, hup, hdown]
  rfl

/-- One step up or down, or to 0 by both keys. -/
inductive Moves (chord : Prop) (top : Nat) : Nat → Nat → Prop
  | stays (l : Nat) : Moves chord top l l
  | up {l : Nat} (h : l < top) : Moves chord top l (l + 1)
  | down (l : Nat) : Moves chord top (l + 1) l
  | cleared (l : Nat) (h : chord) : Moves chord top l 0

theorem moves_inc (chord : Prop) (sel : BitVec 3) (l : Levels) (p : BitVec 3) :
    Moves chord (top p) (l p) (inc sel l p) := by
  rw [inc]
  split
  · rename_i h
    exact .up h.2
  · exact .stays _

theorem moves_dec (chord : Prop) (sel : BitVec 3) (l : Levels) (p : BitVec 3) :
    Moves chord (top p) (l p) (dec sel l p) := by
  rw [dec]
  split
  · cases l p with
    | zero => exact .stays 0
    | succ n => exact .down n
  · exact .stays _

theorem moves_clear (sel : BitVec 3) (l : Levels) (p : BitVec 3) :
    Moves (p = sel) (top p) (l p) (clear sel l p) := by
  rw [clear]
  split
  · exact .cleared _ ‹_›
  · exact .stays _

theorem Long.levels_moves (h : Long x s) (t : Nat) (p : BitVec 3) :
    Moves (both x s (t + 2) = true ∧ p = (x t).select) (top p) (levels x s t p) (levels x s (t + 1) p) := by
  cases hboth : both x s (t + 2) with
  | true =>
      rw [levels, hboth]
      simpa using moves_clear (x t).select (levels x s t) p
  | false =>
      have hapart := h.apart hboth
      cases hup : starts (up x s) t with
      | true =>
          rw [hup, Bool.true_and] at hapart
          rw [levels_up hboth hup hapart]
          exact moves_inc ..
      | false =>
          cases hdown : starts (down x s) t with
          | true =>
              rw [levels_down hboth hup hdown]
              exact moves_dec ..
          | false =>
              rw [levels_quiet hboth hup hdown]
              exact .stays _

end Run

/-- A press of `key` alone: held from `a + 1` to `b`. -/
structure Press (key other : Nat → Bool) (a b : Nat) : Prop where
  before : key a = false
  held : ∀ t, a < t → t ≤ b → key t = true ∧ other t = false
  after : key (b + 1) = false

section Press

variable {key other : Nat → Bool} {a b : Nat} (h : Press key other a b)

include h

theorem Press.starts_first (hlt : a < b) : Counting.starts key a = true := by
  rw [Counting.starts, (h.held (a + 1) (Nat.lt_succ_self a) hlt).1, h.before]
  rfl

theorem Press.starts_later {t : Nat} (hlow : a < t) (hhigh : t < b) : Counting.starts key t = false := by
  rw [Counting.starts, (h.held t hlow (Nat.le_of_lt hhigh)).1, Bool.not_true, Bool.and_false]

theorem Press.starts_other {t : Nat} (hlow : a ≤ t) (hhigh : t < b) : Counting.starts other t = false := by
  rw [Counting.starts, (h.held (t + 1) (by omega) (by omega)).2, Bool.false_and]

theorem Press.apart {t : Nat} (hlow : a ≤ t) (hhigh : t < b) : (key (t + 2) && other (t + 2)) = false := by
  by_cases hlast : t + 2 ≤ b
  · rw [(h.held (t + 2) (by omega) hlast).2, Bool.and_false]
  · have hafter : t + 2 = b + 1 := by omega
    rw [hafter, h.after, Bool.false_and]

end Press

section Presses

variable {x : Nat → Inputs} {s : State} {a b t : Nat}

/-- What counts in cycle `a` alone is what shows until the press ends. -/
theorem levels_press {count : Levels → Levels} (hfirst : levels x s (a + 1) = count (levels x s a))
    (hlater : ∀ t, a < t → t < b → levels x s (t + 1) = levels x s t) (hlow : a < t) (hhigh : t ≤ b) :
    levels x s t = count (levels x s a) := by
  induction t, hlow using Nat.le_induction with
  | base => exact hfirst
  | succ t hlow ih =>
      rw [hlater t hlow hhigh]
      exact ih (Nat.le_of_lt hhigh)

theorem levels_press_up (h : Press (up x s) (down x s) a b) (hlow : a < t) (hhigh : t ≤ b) :
    levels x s t = inc (x a).select (levels x s a) := by
  have hlt : a < b := Nat.lt_of_lt_of_le hlow hhigh
  refine levels_press ?_ (fun c hc hlt => ?_) hlow hhigh
  · exact levels_up (h.apart le_rfl hlt) (h.starts_first hlt) (h.starts_other le_rfl hlt)
  · exact levels_quiet (h.apart hc.le hlt) (h.starts_later hc hlt) (h.starts_other hc.le hlt)

theorem levels_press_down (h : Press (down x s) (up x s) a b) (hlow : a < t) (hhigh : t ≤ b) :
    levels x s t = dec (x a).select (levels x s a) := by
  have hlt : a < b := Nat.lt_of_lt_of_le hlow hhigh
  have hapart {c : Nat} (hc : a ≤ c) (hlt : c < b) : both x s (c + 2) = false :=
    (Bool.and_comm ..).trans (h.apart hc hlt)
  refine levels_press ?_ (fun c hc hlt => ?_) hlow hhigh
  · exact levels_down (hapart le_rfl hlt) (h.starts_other le_rfl hlt) (h.starts_first hlt)
  · exact levels_quiet (hapart hc.le hlt) (h.starts_other hc.le hlt) (h.starts_later hc hlt)

/-- Cycle `a` is the last one of an interval in which both keys are held. -/
structure Chord (x : Nat → Inputs) (s : State) (a : Nat) : Prop where
  held : both x s (a + 2) = true
  released : both x s (a + 3) = false

theorem Chord.not_starts (hlong : Long x s) (h : Chord x s a) :
    starts (up x s) (a + 1) = false ∧ starts (down x s) (a + 1) = false := by
  have hbefore : both x s (a + 1) = true :=
    (hlong (a + 1) h.held).resolve_right fun hafter => Bool.noConfusion (h.released.symm.trans hafter)
  obtain ⟨hup, hdown⟩ := Bool.and_eq_true_iff.mp hbefore
  exact ⟨by rw [starts, hup, Bool.not_true, Bool.and_false], by rw [starts, hdown, Bool.not_true, Bool.and_false]⟩

theorem Chord.levels_zero (hlong : Long x s) (h : Chord x s a) (hlow : a < t)
    (hnext : ∀ c, a + 2 ≤ c → c < t → starts (up x s) c = false ∧ starts (down x s) c = false) :
    levels x s t (x a).select = 0 := by
  induction t, hlow using Nat.le_induction with
  | base =>
      rw [levels, h.held, if_pos rfl, clear, if_pos rfl]
  | succ t hlow ih =>
      have hzero := ih fun c hc hlt => hnext c hc (by omega)
      have hstarts : starts (up x s) t = false ∧ starts (down x s) t = false := by
        rcases Nat.eq_or_lt_of_le hlow with rfl | hlt
        · exact h.not_starts hlong
        · exact hnext t hlt (Nat.lt_succ_self t)
      cases hboth : both x s (t + 2) with
      | true =>
          rw [levels, hboth, if_pos rfl, clear, hzero, ite_self]
      | false =>
          rw [levels_quiet hboth hstarts.1 hstarts.2, hzero]

end Presses

/-- What the panel shows of a trace, in every cycle of it. -/
structure Counts (x : Nat → Inputs) (s : State) : Prop where
  law : ∀ t, (run x s t).level = levels x s t
  up_once : ∀ a b t, Press (up x s) (down x s) a b → a < t → t ≤ b →
    (run x s t).level = inc (x a).select (run x s a).level
  down_once : ∀ a b t, Press (down x s) (up x s) a b → a < t → t ≤ b →
    (run x s t).level = dec (x a).select (run x s a).level
  no_wrap : ∀ t p, Moves (both x s (t + 2) = true ∧ p = (x t).select) (top p) ((run x s t).level p)
    ((run x s (t + 1)).level p)
  chord_zero : ∀ a t, Chord x s a → a < t →
    (∀ c, a + 2 ≤ c → c < t → starts (up x s) c = false ∧ starts (down x s) c = false) →
    (run x s t).level (x a).select = 0

/-- The levels follow the presses of the keys: a press counts once, both keys
clear, and nothing wraps round. -/
theorem panel_counts (x : Nat → Inputs) (s : State) (h : Long x s) : Counts x s where
  law := level_run h
  up_once a b t hpress hlow hhigh := by
    rw [level_run h, level_run h]
    exact levels_press_up hpress hlow hhigh
  down_once a b t hpress hlow hhigh := by
    rw [level_run h, level_run h]
    exact levels_press_down hpress hlow hhigh
  no_wrap t p := by
    rw [level_run h, level_run h]
    exact h.levels_moves t p
  chord_zero a t hchord hlow hnext := by
    rw [level_run h]
    exact hchord.levels_zero h hlow hnext

/-- The up key is held in the cycles 0 and 1, and both keys in the cycles 4 and 5. -/
def tapped (t : Nat) : Inputs := ⟨0, decide (t ≠ 0 ∧ t ≠ 1 ∧ t ≠ 4 ∧ t ≠ 5), decide (t ≠ 4 ∧ t ≠ 5)⟩

theorem tapped_long : Long tapped powerUp := by
  intro t hboth
  have hdown := (Bool.and_eq_true_iff.mp hboth).2
  cases t with
  | zero => exact Bool.noConfusion hdown
  | succ t =>
      have hheld : (!decide (t ≠ 4 ∧ t ≠ 5)) = true := hdown
      rw [Bool.not_eq_true', decide_eq_false_iff_not] at hheld
      obtain rfl | rfl : t = 4 ∨ t = 5 := by omega
      · exact .inr rfl
      · exact .inl rfl

theorem panel_counts_tapped : (run tapped powerUp 3).level 0 = 1 ∧ (run tapped powerUp 9).level 0 = 0 := by
  have hcounts := panel_counts tapped powerUp tapped_long
  constructor
  · have hpress : Press (up tapped powerUp) (down tapped powerUp) 1 3 := by
      refine ⟨rfl, fun t hlow hhigh => ?_, rfl⟩
      obtain rfl | rfl : t = 2 ∨ t = 3 := by omega
      · exact ⟨rfl, rfl⟩
      · exact ⟨rfl, rfl⟩
    rw [hcounts.up_once 1 3 3 hpress (by decide) le_rfl]
    rfl
  · refine hcounts.chord_zero 5 9 ⟨rfl, rfl⟩ (by decide) fun c hlow hhigh => ?_
    obtain rfl | rfl : c = 7 ∨ c = 8 := by omega
    · exact ⟨rfl, rfl⟩
    · exact ⟨rfl, rfl⟩

end ECE385.Pedalboard.Counting
