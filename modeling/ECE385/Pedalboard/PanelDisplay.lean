import ECE385.Pedalboard.PanelText

namespace ECE385.Pedalboard.PanelDisplay

open Clocked.LastWrite
open Display Display.Lines
open Display.Coherence (loading powerUp)
open Display.Interface (Bus)
open Display.Palette (Executes exists_executes)
open PanelText

section Layout

def place (l : Line) : Nat × Nat × Nat := (l.x, l.y, l.text.length)

/-- Where the six lines are and how long they are, whatever they say. -/
def layout : List (Nat × Nat × Nat) :=
  [(10, 6, 15), (10, 14, 19), (10, 22, 20), (50, 6, 16), (50, 14, 18), (50, 22, 19)]

theorem lines_layout (temp : Nat) {s : ScreenSaver.State} (h : InRange s) :
    (PanelText.lines temp s).map place = layout := by
  obtain ⟨hgain, hbitcrush, hoverdr, hdelay, htremolo, hlowpass⟩ := h
  simp only [PanelText.lines, List.map_cons, List.map_nil, place, gainText, bitcrushText, overdrText, delayText,
    tremoloText, lowpassText]
  rw [length_levelText (by omega), length_levelText (by omega), length_levelText (by omega),
    length_levelText (by omega), length_levelText (by omega), length_levelText (by omega)]
  rfl

theorem lines_text (temp : Nat) {s : ScreenSaver.State} (h : InRange s) :
    ∀ l ∈ PanelText.lines temp s, ∀ c ∈ l.text, c ≠ 0 := by
  obtain ⟨hgain, hbitcrush, hoverdr, hdelay, htremolo, hlowpass⟩ := h
  simp only [PanelText.lines, List.forall_mem_cons]
  refine ⟨levelText_ne_zero (by omega) (by decide), levelText_ne_zero (by omega) (by decide),
    levelText_ne_zero (by omega) (by decide), levelText_ne_zero (by omega) (by decide),
    levelText_ne_zero (by omega) (by decide), levelText_ne_zero (by omega) (by decide), ?_⟩
  intro l hl
  exact absurd hl List.not_mem_nil

theorem place_mem {temp : Nat} {s : ScreenSaver.State} (h : InRange s) {l : Line} (hl : l ∈ PanelText.lines temp s) :
    place l ∈ layout := by
  rw [← lines_layout temp h]
  exact List.mem_map_of_mem hl

theorem lines_inks (temp : Nat) (s : ScreenSaver.State) :
    ∀ l ∈ PanelText.lines temp s, l.background = bg ∧ l.foreground = fg := by
  simp [PanelText.lines]

theorem lines_valid {temp : Nat} {s : ScreenSaver.State} (h : InRange s) {l : Line} (hl : l ∈ PanelText.lines temp s) :
    l.Valid := by
  have hlayout : ∀ p ∈ layout, p.2.1 < 30 ∧ p.1 + p.2.2 ≤ 80 := by decide
  obtain ⟨hrow, hcolumn⟩ := hlayout _ (place_mem h hl)
  obtain ⟨hbackground, hforeground⟩ := lines_inks temp s l hl
  refine ⟨hrow, hcolumn, lines_text temp h l hl, ?_, ?_⟩
  · rw [hbackground]
    decide
  · rw [hforeground]
    decide

theorem at_eq_none_of_place {l m : Line} (h : place l = place m) {row column : Nat} (hl : l.at row column = none) :
    m.at row column = none := by
  have hx : l.x = m.x := congrArg Prod.fst h
  have hy : l.y = m.y := congrArg (fun p => p.2.1) h
  have hlength : l.text.length = m.text.length := congrArg (fun p => p.2.2) h
  rw [at_eq_none_iff] at hl ⊢
  rwa [← hx, ← hy, ← hlength]

end Layout

section Loop

variable (x : Nat → Inputs)

def turn : Nat → ScreenSaver.Read
  | 0 => .sw
  | 1 => .key0
  | 2 => .key1
  | 3 => .key0Again
  | _ => .key1Again

def following : ScreenSaver.Read → ScreenSaver.Read
  | .sw => .key0
  | .key0 => .key1
  | .key1 => .key0Again
  | .key0Again => .key1Again
  | .key1Again => .sw

theorem read_next (key0 key1 : Bool) (sw : BitVec 10) (s : ScreenSaver.State) :
    (s.read key0 key1 sw).next = following s.next := by
  unfold ScreenSaver.State.read
  cases s.next with
  | sw => rfl
  | key0 => exact (apply_ite ScreenSaver.State.next ..).trans (ite_self _)
  | key1 => exact (apply_ite ScreenSaver.State.next ..).trans (ite_self _)
  | key0Again => exact (apply_ite ScreenSaver.State.next ..).trans (ite_self _)
  | key1Again => exact (apply_ite ScreenSaver.State.next ..).trans (ite_self _)

theorem following_turn (n : Nat) : following (turn (n % 5)) = turn ((n + 1) % 5) := by
  have hlt : n % 5 < 5 := Nat.mod_lt _ (by decide)
  have hsucc : (n + 1) % 5 = (n % 5 + 1) % 5 := (Nat.mod_add_mod n 5 1).symm
  rw [hsucc]
  generalize n % 5 = r at hlt
  interval_cases r <;> rfl

theorem next_state (n : Nat) : (state x n).loop.next = turn (n % 5) :=
  Clocked.Machine.run_invariant (fun n (s : PanelText.State) => s.loop.next = turn (n % 5)) rfl
    (fun n s h => by rw [State.read, read_next, h, following_turn]) n

theorem turn_key1 {r : Nat} (hr : r < 5) : turn r = .key1 ↔ r = 2 := by
  interval_cases r <;> decide

theorem drawn_state (n : Nat) :
    (state x n).drawn (x n) = if n % 5 = 2 then (state x (n + 1)).lines else [] := by
  rw [State.drawn, next_state]
  exact if_congr (turn_key1 (Nat.mod_lt _ (by decide))) rfl rfl

theorem drawings_pass (p : Nat) {j : Nat} (hj : j < 5) :
    drawings x (5 * p + 3 + j) = drawings x (5 * p + 2) ++ (state x (5 * p + 3)).lines := by
  induction j with
  | zero =>
      show drawings x (5 * p + 2) ++ (state x (5 * p + 2)).drawn (x (5 * p + 2)) = _
      rw [drawn_state, if_pos (by omega)]
  | succ j ih =>
      show drawings x (5 * p + 3 + j) ++ (state x (5 * p + 3 + j)).drawn (x (5 * p + 3 + j)) = _
      rw [drawn_state, if_neg (by omega), List.append_nil]
      exact ih (by omega)

theorem drawings_lines (n : Nat) : ∀ l ∈ drawings x n, ∃ m, l ∈ (state x m).lines := by
  induction n with
  | zero => exact fun l hl => absurd hl List.not_mem_nil
  | succ n ih =>
      intro l hl
      rcases List.mem_append.mp hl with hl | hl
      · exact ih l hl
      · rw [drawn_state] at hl
        split at hl
        · exact ⟨n + 1, hl⟩
        · exact absurd hl List.not_mem_nil

theorem drawings_valid (n : Nat) : ∀ l ∈ drawings x n, l.Valid := by
  intro l hl
  obtain ⟨m, hm⟩ := drawings_lines x n l hl
  exact lines_valid (inRange_state x m) hm

/-- Nothing of an earlier pass is left. -/
theorem lastOf_drawings (p : Nat) {j : Nat} (hj : j < 5) (row column : Nat) :
    lastOf (·.at row column) (drawings x (5 * p + 3 + j)) =
      lastOf (·.at row column) (state x (5 * p + 3)).lines := by
  rw [drawings_pass x p hj, lastOf_append]
  cases hnow : lastOf (·.at row column) (state x (5 * p + 3)).lines with
  | some c => rfl
  | none =>
      have hbefore : lastOf (·.at row column) (drawings x (5 * p + 2)) = none := by
        refine lastOf_eq_none fun l hl => ?_
        obtain ⟨m, hm⟩ := drawings_lines x _ l hl
        have hplace := place_mem (inRange_state x m) hm
        rw [← lines_layout (state x (5 * p + 3)).temp (inRange_state x (5 * p + 3))] at hplace
        obtain ⟨l', hl', heq⟩ := List.mem_map.mp hplace
        exact at_eq_none_of_place heq (eq_none_of_lastOf hnow hl')
      rw [hbefore]
      rfl

end Loop

section Screen

variable {fontRom : BitVec 11 → BitVec 8} {s t : Interface.State} (x : Nat → Inputs)

theorem screen_drawings (p : Nat) {j : Nat} (hj : j < 5) (drawX drawY : Nat) :
    screen fontRom (drawings x (5 * p + 3 + j)) drawX drawY =
      screen fontRom (state x (5 * p + 3)).lines drawX drawY := by
  rw [screen, lastOf_drawings x p hj]
  rfl

/-- Once a pass has drawn its lines, and until the next one draws, every visible
pixel is that of a screen with the present texts and nothing else on it. -/
theorem panel_repainted (p j : Nat) (hj : j < 5)
    (h : Executes fontRom s.reset (textVGAColorScreenSaver x (5 * p + 3 + j)) t) (y : Nat → Bus) (n : Nat)
    (hn : 0 < n) (hquiet : ∀ m, m < n → (y m).wren = false) (drawX drawY : Nat) (hX : drawX < 640) (hY : drawY < 480)
    (hrising : (Interface.run fontRom y t n).clkdiv = false)
    (hdrawX : (Interface.run fontRom y t n).hc = BitVec.ofNat 10 drawX)
    (hdrawY : (Interface.run fontRom y t n).vc = BitVec.ofNat 10 drawY) :
    (Interface.run fontRom y t (n + 1)).rgb = screen fontRom (state x (5 * p + 3)).lines drawX drawY := by
  rw [picture_shown h hn hquiet hX hY hrising hdrawX hdrawY, ← screen_drawings x p hj]
  exact program_picture (drawings_valid x _) h hX hY

end Screen

section Example

def untouched : Nat → Inputs := fun _ => ⟨true, true, 0⟩

def solid : BitVec 11 → BitVec 8 := fun _ => 0xff

/-- The first pass has drawn; the next frame shows the G of the gain in blue. -/
theorem panel_repainted_first : ∃ t n, Executes solid powerUp.reset (textVGAColorScreenSaver untouched 3) t ∧
    (Interface.run solid (fun _ => loading 0) t (n + 1)).rgb = ⟨0, 0, 0xa⟩ := by
  obtain ⟨t, ht⟩ := exists_executes solid (textVGAColorScreenSaver untouched 3) powerUp.reset
  obtain ⟨n, hn, hrising, hdrawX, hdrawY⟩ := exists_taken ht (fun _ => loading 0) (show 80 < 640 by decide)
    (show 96 < 480 by decide)
  refine ⟨t, n, ht, ?_⟩
  rw [panel_repainted untouched 0 0 (by decide) ht (fun _ => loading 0) n hn (fun _ _ => rfl) 80 96
    (by decide) (by decide) hrising hdrawX hdrawY]
  decide +kernel

end Example

end ECE385.Pedalboard.PanelDisplay
