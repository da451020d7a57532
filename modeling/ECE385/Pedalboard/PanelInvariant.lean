import ECE385.Pedalboard.PanelScreen

namespace ECE385.Pedalboard.PanelInvariant

open KeyWatch PanelScreen Tuning
open ScreenSaver (Read selected)

/-- What the panel will show when it has taken the presses up to now. -/
def target (p : ControlPanel.State) (sel : BitVec 3) (key0 key1 : Bool) : Levels :=
  if !key0 && !p.up1 then inc sel (p.counted sel)
  else if !key1 && !p.down1 then dec sel (p.counted sel)
  else p.counted sel

/-- What the screen will show when it has counted the presses up to now. A key
is owed a count from its press to the pass that sees it up. -/
def owed (sel : BitVec 3) (key0 key1 : Bool) (s : ScreenSaver.State) : Levels :=
  if key0 && s.key0Pressed then
    if key1 && s.key1Pressed then s.level else dec sel s.level
  else
    if key1 && s.key1Pressed then inc sel s.level
    else if key0 then dec sel (inc sel s.level)
    else inc sel (dec sel s.level)

structure Inv (s : State) : Prop where
  key0 : Noted .key0 .key0Again s.screen.next s.key0 s.screen.key0Pressed
  key1 : Noted .key1 .key1Again s.screen.next s.key1 s.screen.key1Pressed
  apart : s.key0.level = true ∨ s.key1.level = true
  later0 : s.key0.level = false → s.key1.level = true → s.screen.key1Pressed = false →
    s.key1.due ≤ s.key0.due
  later1 : s.key1.level = false → s.key0.level = true → s.screen.key0Pressed = false →
    s.key0.due ≤ s.key1.due
  first : s.key0.level = true → s.key1.level = true → s.screen.key0Pressed = false →
    s.screen.key1Pressed = false → s.screen.next = .sw ∨ s.screen.next = .key0
  select : s.screen.key0Pressed = false ∨ s.screen.key1Pressed = false →
    s.screen.next = .key0 ∨ s.screen.next = .key1 → s.screen.select = s.sel.level.toNat
  exclusive : (s.panel.up1 && s.panel.down1) = false
  agree : target s.panel s.sel.level s.key0.level s.key1.level =
    owed s.sel.level s.key0.level s.key1.level s.screen

structure Registered (s : State) : Prop where
  up1 : s.key0.level = true → s.panel.up1 = false
  down1 : s.key1.level = true → s.panel.down1 = false
  taken0 : s.key0.level = false → s.panel.up1 = true ∨ 0 < s.key0.due
  taken1 : s.key1.level = false → s.panel.down1 = true ∨ 0 < s.key1.due

theorem powerUp_level : ControlPanel.powerUp.level = fun _ => 0 := by
  funext p
  obtain rfl | rfl | rfl | rfl | rfl | rfl | rfl | rfl := selector_cases p <;> rfl

theorem start_level : ScreenSaver.start.level = fun _ => 0 := by
  funext p
  obtain rfl | rfl | rfl | rfl | rfl | rfl | rfl | rfl := selector_cases p <;> rfl

theorem inv_powerUp (i : Inputs) (h : i.key0 = true ∨ i.key1 = true) : Inv (powerUp i) where
  key0 := ⟨.inr ⟨2, le_rfl, rfl⟩, fun _ _ => Nat.le_succ 9, fun _ hp => Bool.noConfusion hp⟩
  key1 := ⟨.inr ⟨2, le_rfl, rfl⟩, fun _ _ => Nat.le_add_right 8 2, fun _ hp => Bool.noConfusion hp⟩
  apart := h
  later0 _ _ _ := le_rfl
  later1 _ _ _ := le_rfl
  first _ _ _ _ := .inl rfl
  select _ hnext := by rcases hnext with h | h <;> exact Read.noConfusion h
  exclusive := rfl
  agree := by
    have hcounted (sel : BitVec 3) : ControlPanel.powerUp.counted sel = fun _ => 0 := powerUp_level
    show target ControlPanel.powerUp i.select i.key0 i.key1 = owed i.select i.key0 i.key1 ScreenSaver.start
    rw [target, owed]
    rw [hcounted, start_level]
    cases hkey0 : i.key0 with
    | true => cases i.key1 <;> simp [ControlPanel.powerUp, ScreenSaver.start, dec_inc_zero, dec_zero]
    | false =>
        have hkey1 : i.key1 = true := by simpa [hkey0] using h
        simp [hkey1, ControlPanel.powerUp, ScreenSaver.start, dec_zero]

section Agree

variable {p : ControlPanel.State} {screen : ScreenSaver.State} {sel : BitVec 3} {k0 k1 k0' k1' : Bool}

theorem agree_select (sel' : BitVec 3) (hsel : sel' ≠ sel → k0 = true ∧ k1 = true ∧
      screen.key0Pressed = true ∧ screen.key1Pressed = true)
    (hup : k0 = true → p.up1 = false) (hdown : k1 = true → p.down1 = false)
    (h : target p sel k0 k1 = owed sel k0 k1 screen) :
    target p sel' k0 k1 = owed sel' k0 k1 screen := by
  by_cases hne : sel' = sel
  · rwa [hne]
  · obtain ⟨rfl, rfl, hp0, hp1⟩ := hsel hne
    have hup1 := hup rfl
    have hdown1 := hdown rfl
    simp only [target, owed, ControlPanel.State.counted, ControlPanel.State.add,
      ControlPanel.State.subtract, hup1, hdown1, hp0, hp1] at h ⊢
    exact h

theorem target_up : target p sel true true = p.counted sel := rfl

theorem agree_release0 (hp0 : screen.key0Pressed = false) (hp1 : screen.key1Pressed = true) (hup : p.up1 = true)
    (h : target p sel false true = owed sel false true screen) :
    target p sel true true = owed sel true true screen := by
  have hcounted : p.counted sel = inc sel screen.level := by simpa [target, owed, hp0, hp1, hup] using h
  rw [target_up, hcounted]
  simp [owed, hp0, hp1]

theorem agree_release1 (hp0 : screen.key0Pressed = true) (hp1 : screen.key1Pressed = false) (hdown : p.down1 = true)
    (h : target p sel true false = owed sel true false screen) :
    target p sel true true = owed sel true true screen := by
  have hcounted : p.counted sel = dec sel screen.level := by simpa [target, owed, hp0, hp1, hdown] using h
  rw [target_up, hcounted]
  simp [owed, hp0, hp1]

theorem agree_press0 (hp0 : screen.key0Pressed = true) (hup : p.up1 = false)
    (h : target p sel true true = owed sel true true screen) :
    target p sel false true = owed sel false true screen := by
  rw [target_up] at h
  cases hp1 : screen.key1Pressed <;> simp [target, owed, hp0, hp1, hup, h]

theorem agree_press1 (hp1 : screen.key1Pressed = true) (hdown : p.down1 = false)
    (h : target p sel true true = owed sel true true screen) :
    target p sel true false = owed sel true false screen := by
  rw [target_up] at h
  cases hp0 : screen.key0Pressed <;> simp [target, owed, hp0, hp1, hdown, h]

theorem leaves_down {k m k' m' : Bool} (hk : k = false) (hapart : k = true ∨ m = true)
    (hapart' : k' = true ∨ m' = true) (hmoves : k' = k → m' = m → False) : k' = true := by
  by_contra hk'
  have hm : m = true := hapart.resolve_left (by rw [hk]; decide)
  have hm' : m' = true := hapart'.resolve_left hk'
  exact hmoves ((Bool.eq_false_of_not_eq_true hk').trans hk.symm) (hm'.trans hm.symm)

/-- A press adds its count on both sides, a release none. -/
theorem agree_keys (hmove0 : k0' ≠ k0 → screen.key0Pressed = k0 ∧ p.up1 = !k0)
    (hmove1 : k1' ≠ k1 → screen.key1Pressed = k1 ∧ p.down1 = !k1)
    (hapart : k0 = true ∨ k1 = true) (hapart' : k0' = true ∨ k1' = true)
    (hlater0 : k0 = false → k0' = true → k1 = true → screen.key1Pressed = true)
    (hlater1 : k1 = false → k1' = true → k0 = true → screen.key0Pressed = true)
    (h : target p sel k0 k1 = owed sel k0 k1 screen) :
    target p sel k0' k1' = owed sel k0' k1' screen := by
  have hne : (true : Bool) ≠ false := Bool.false_ne_true.symm
  by_cases hstay : k0' = k0 ∧ k1' = k1
  · rwa [hstay.1, hstay.2]
  · -- when one key goes up as the other goes down, the release is taken first
    have hup : target p sel true true = owed sel true true screen := by
      cases k0 with
      | false =>
          obtain rfl : k1 = true := by simpa using hapart
          obtain rfl : k0' = true := leaves_down rfl hapart hapart' fun h0 h1 => hstay ⟨h0, h1⟩
          exact agree_release0 (hmove0 hne).1 (hlater0 rfl rfl rfl) (hmove0 hne).2 h
      | true =>
          cases k1 with
          | false =>
              obtain rfl : k1' = true := leaves_down rfl hapart.symm hapart'.symm fun h1 h0 => hstay ⟨h0, h1⟩
              exact agree_release1 (hlater1 rfl rfl rfl) (hmove1 hne).1 (hmove1 hne).2 h
          | true => exact h
    cases k0' with
    | false =>
        obtain rfl : k1' = true := by simpa using hapart'
        obtain rfl : k0 = true := leaves_down rfl hapart' hapart fun h0 h1 => hstay ⟨h0.symm, h1.symm⟩
        exact agree_press0 (hmove0 hne.symm).1 (hmove0 hne.symm).2 hup
    | true =>
        cases k1' with
        | false =>
            obtain rfl : k1 = true := leaves_down rfl hapart'.symm hapart.symm fun h1 h0 => hstay ⟨h0.symm, h1.symm⟩
            exact agree_press1 (hmove1 hne.symm).1 (hmove1 hne.symm).2 hup
        | true => exact hup

end Agree

/-- A press of one key gives it the later due time. -/
theorem later_see {next : Read} {w v : Watch Bool} {up down : Bool} (hdown : down = false) (hup : up = true)
    (hapart : w.level = true ∨ v.level = true) (hdue : (v.see next up).due ≤ rest next + 10)
    (hlater : w.level = false → v.level = true → v.due ≤ w.due) :
    (v.see next up).due ≤ (w.see next down).due := by
  by_cases hne : down = w.level
  · have hw : w.level = false := hne.symm.trans hdown
    have hv : v.level = true := hapart.resolve_left (by rw [hw]; decide)
    rw [see_of_eq hne, see_of_eq (hup.trans hv.symm)]
    exact hlater hw hv
  · rw [see_of_ne hne]
    exact hdue

section See

variable {i : Inputs} {s : State}

theorem Inv.seen0 (h : Inv s) (h1 : s.key1.level = false) (hdue : s.key1.due = 0) (h0 : s.key0.level = true) :
    s.screen.key0Pressed = true := by
  by_contra hp
  have hp := Bool.eq_false_of_not_eq_true hp
  have hlater := h.later1 h1 h0 hp
  have hseen := h.key0.seen h0 hp
  omega

theorem Inv.seen1 (h : Inv s) (h0 : s.key0.level = false) (hdue : s.key0.due = 0) (h1 : s.key1.level = true) :
    s.screen.key1Pressed = true := by
  by_contra hp
  have hp := Bool.eq_false_of_not_eq_true hp
  have hlater := h.later0 h0 h1 hp
  have hseen := h.key1.seen h1 hp
  omega

theorem see_agree (h : Inv s) (hr : Registered s) (hheld : Held i s) (hu : Undisturbed i s) :
    target s.panel i.select i.key0 i.key1 = owed i.select i.key0 i.key1 s.screen := by
  have hsel := agree_select i.select hu.sel hr.up1 hr.down1 h.agree
  refine agree_keys ?_ ?_ h.apart hu.apart ?_ ?_ hsel
  · intro hmoved
    have hdue := hheld.key0 hmoved
    refine ⟨h.key0.moved hdue, ?_⟩
    cases hlevel : s.key0.level with
    | true => exact hr.up1 hlevel
    | false => exact (hr.taken0 hlevel).resolve_right (by omega)
  · intro hmoved
    have hdue := hheld.key1 hmoved
    refine ⟨h.key1.moved hdue, ?_⟩
    cases hlevel : s.key1.level with
    | true => exact hr.down1 hlevel
    | false => exact (hr.taken1 hlevel).resolve_right (by omega)
  · intro h0 h0' h1
    exact h.seen1 h0 (hheld.key0 (by rw [h0, h0']; decide)) h1
  · intro h1 h1' h0
    exact h.seen0 h1 (hheld.key1 (by rw [h1, h1']; decide)) h0

theorem Inv.see (h : Inv s) (hr : Registered s) (hheld : Held i s) (hu : Undisturbed i s) : Inv (s.see i) where
  key0 := h.key0.see i.key0
  key1 := h.key1.see i.key1
  apart := by
    simpa only [State.see, see_level] using hu.apart
  later0 h0 h1 hp := by
    simp only [State.see, see_level] at h0 h1 hp ⊢
    exact later_see h0 h1 h.apart (h.key1.see i.key1).due_le fun h0 h1 => h.later0 h0 h1 hp
  later1 h1 h0 hp := by
    simp only [State.see, see_level] at h0 h1 hp ⊢
    exact later_see h1 h0 h.apart.symm (h.key0.see i.key0).due_le fun h1 h0 => h.later1 h1 h0 hp
  first h0 h1 hp0 hp1 := by
    simp only [State.see, see_level] at h0 h1 hp0 hp1 ⊢
    by_cases hne0 : i.key0 = s.key0.level
    · by_cases hne1 : i.key1 = s.key1.level
      · exact h.first (by rw [← hne0, h0]) (by rw [← hne1, h1]) hp0 hp1
      · have hdown : s.key1.level = false := by simpa [h1] using Ne.symm hne1
        have hseen := h.seen0 hdown (hheld.key1 hne1) (by rw [← hne0, h0])
        exact absurd hp0 (by rw [hseen]; decide)
    · have hdown : s.key0.level = false := by simpa [h0] using Ne.symm hne0
      have hup := h.apart.resolve_left (by rw [hdown]; decide)
      have hseen := h.seen1 hdown (hheld.key0 hne0) hup
      exact absurd hp1 (by rw [hseen]; decide)
  select hp hnext := by
    simp only [State.see, see_level] at hp hnext ⊢
    by_cases hne : i.select = s.sel.level
    · rw [hne]
      exact h.select hp hnext
    · obtain ⟨-, -, hp0, hp1⟩ := hu.sel hne
      simp [hp0, hp1] at hp
  exclusive := h.exclusive
  agree := by
    simpa only [State.see, see_level] using see_agree h hr hheld hu

end See

section Reading

variable {i : Inputs} {s : State}

structure Shown (i : Inputs) (s : State) : Prop where
  key0 : s.key0.level = i.key0
  key1 : s.key1.level = i.key1
  sel : s.sel.level = i.select

theorem owed_eq (sel : BitVec 3) (key0 key1 : Bool) {t : ScreenSaver.State} {p0 p1 : Bool} {l : Levels}
    (hp0 : t.key0Pressed = p0) (hp1 : t.key1Pressed = p1) (hl : t.level = l) :
    owed sel key0 key1 t =
      if key0 && p0 then if key1 && p1 then l else dec sel l
      else if key1 && p1 then inc sel l
      else if key0 then dec sel (inc sel l)
      else inc sel (dec sel l) := by
  rw [← hp0, ← hp1, ← hl]
  rfl

theorem owed_read (sel : BitVec 3) (t : ScreenSaver.State) {key0 key1 : Bool} (sw : BitVec 10)
    (hfirst : key0 = true → key1 = true → t.key0Pressed = false → t.key1Pressed = false →
      t.next = .sw ∨ t.next = .key0)
    (hselect : t.key0Pressed = false ∨ t.key1Pressed = false →
      t.next = .key0 ∨ t.next = .key1 → t.select = sel.toNat) :
    owed sel key0 key1 (t.read key0 key1 sw) = owed sel key0 key1 t := by
  rw [owed_eq sel key0 key1 (read_key0Pressed ..) (read_key1Pressed ..) (read_level ..)]
  rw [owed]
  cases hnext : t.next with
  | sw => simp [note]
  | key0 =>
      cases key0 with
      | false => simp [note]
      | true =>
          cases hp0 : t.key0Pressed with
          | true => simp [note]
          | false =>
              have hup := ScreenSaver.level_up (hselect (.inl hp0) (.inl hnext))
              simp [note, hup]
  | key1 =>
      cases key1 with
      | false => simp [note]
      | true =>
          cases hp1 : t.key1Pressed with
          | true => simp [note]
          | false =>
              have hdown := ScreenSaver.level_down (hselect (.inr hp1) (.inr hnext))
              -- with both keys up and nothing counted the count up comes first
              have hp0 : key0 = true → t.key0Pressed = true := by
                rintro rfl
                by_contra hp0
                have hnot := hfirst rfl rfl (Bool.eq_false_of_not_eq_true hp0) hp1
                simp [hnext] at hnot
              cases key0 with
              | false => simp [note, hdown]
              | true => simp [note, hdown, hp0 rfl]
  | key0Again => cases key0 <;> simp [note]
  | key1Again => cases key1 <;> simp [note]

theorem Inv.read (h : Inv s) (hs : Shown i s) : Inv (s.read i) where
  key0 := by
    have htick := h.key0.tick (by decide)
    rw [hs.key0] at htick
    simpa only [State.read, read_next, read_key0Pressed] using htick
  key1 := by
    have htick := h.key1.tick (by decide)
    rw [hs.key1] at htick
    simpa only [State.read, read_next, read_key1Pressed] using htick
  apart := h.apart
  later0 h0 h1 hp := by
    simp only [State.read, read_key1Pressed] at h0 h1 hp ⊢
    have hp1 := (note_up (hs.key1.symm.trans h1) hp).2
    exact Nat.sub_le_sub_right (h.later0 h0 h1 hp1) 1
  later1 h1 h0 hp := by
    simp only [State.read, read_key0Pressed] at h0 h1 hp ⊢
    have hp0 := (note_up (hs.key0.symm.trans h0) hp).2
    exact Nat.sub_le_sub_right (h.later1 h1 h0 hp0) 1
  first h0 h1 hp0 hp1 := by
    simp only [State.read, read_key0Pressed, read_key1Pressed, read_next] at h0 h1 hp0 hp1 ⊢
    obtain ⟨hnext, hp0⟩ := note_up (hs.key0.symm.trans h0) hp0
    obtain ⟨-, hp1⟩ := note_up (hs.key1.symm.trans h1) hp1
    have hsw := (h.first h0 h1 hp0 hp1).resolve_right hnext
    exact .inr (by rw [hsw]; rfl)
  select hp hnext := by
    simp only [State.read, read_key0Pressed, read_key1Pressed, read_next, read_select] at hp hnext ⊢
    cases hread : s.screen.next with
    | sw => rw [if_pos rfl, ScreenSaver.selected_eq]; exact congrArg BitVec.toNat hs.sel.symm
    | key0 =>
        rw [if_neg (by decide)]
        refine h.select ?_ (.inl hread)
        have hp' : (i.key0 = false ∧ s.screen.key0Pressed = false) ∨ s.screen.key1Pressed = false := by
          simpa [note, hread] using hp
        exact hp'.imp_left And.right
    | _ => simp [hread, after] at hnext
  exclusive := h.exclusive
  agree := by
    have hselect := h.select
    have hfirst := h.first
    rw [hs.key0, hs.key1] at hfirst
    refine h.agree.trans ?_
    show _ = owed s.sel.level s.key0.level s.key1.level (s.screen.read i.key0 i.key1 i.sw)
    rw [hs.key0, hs.key1]
    exact (owed_read s.sel.level s.screen i.sw hfirst hselect).symm

end Reading

section Clock

variable {i : Inputs} {s : State}

theorem target_clk (p : ControlPanel.State) (sel : BitVec 3) {key0 key1 : Bool}
    (hapart : key0 = true ∨ key1 = true) (hexclusive : (p.up1 && p.down1) = false) :
    target (p.clk sel key0 key1) sel key0 key1 = target p sel key0 key1 := by
  have hboth : (!key0 && !key1) = false := by
    rcases hapart with rfl | rfl
    · rfl
    · exact Bool.and_false _
  have hstore : (p.add && p.subtract) = false := by
    rw [ControlPanel.State.add, ControlPanel.State.subtract]
    cases hup : p.up1 with
    | false => rfl
    | true =>
        rw [hup, Bool.true_and] at hexclusive
        rw [hexclusive]
        exact Bool.and_false _
  have hlevel := ControlPanel.level_clk sel p hboth hstore
  have hadd : (p.clk sel key0 key1).add = (!key0 && !p.up1) := by
    cases key0 <;> cases hup : p.up1 <;> simp [ControlPanel.State.add, ControlPanel.State.clk, hup]
  have hsubtract : (p.clk sel key0 key1).subtract = (!key1 && !p.down1) := by
    cases key1 <;> cases hdown : p.down1 <;> simp [ControlPanel.State.subtract, ControlPanel.State.clk, hdown]
  have hcounted : (p.clk sel key0 key1).counted sel = target p sel key0 key1 := by
    rw [ControlPanel.State.counted, target]
    rw [hlevel, hadd, hsubtract]
  rw [← hcounted]
  rw [target, ControlPanel.State.clk]
  simp

theorem registered_clk (hs : Shown i s) : Registered (s.clk i) where
  up1 h := by
    have hup : i.key0 = true := hs.key0.symm.trans h
    show (!i.key0) = false
    rw [hup]; rfl
  down1 h := by
    have hup : i.key1 = true := hs.key1.symm.trans h
    show (!i.key1) = false
    rw [hup]; rfl
  taken0 h := by
    have hdown : i.key0 = false := hs.key0.symm.trans h
    refine .inl ?_
    show (!i.key0) = true
    rw [hdown]; rfl
  taken1 h := by
    have hdown : i.key1 = false := hs.key1.symm.trans h
    refine .inl ?_
    show (!i.key1) = true
    rw [hdown]; rfl

theorem Inv.clk (h : Inv s) (hs : Shown i s) : Inv (s.clk i) where
  key0 := h.key0
  key1 := h.key1
  apart := h.apart
  later0 := h.later0
  later1 := h.later1
  first := h.first
  select := h.select
  exclusive := by
    have hapart := h.apart
    rw [hs.key0, hs.key1] at hapart
    show (!i.key0 && !i.key1) = false
    rcases hapart with hup | hup <;> simp [hup]
  agree := by
    have hapart := h.apart
    have hagree := h.agree
    rw [hs.key0, hs.key1] at hapart
    show target (s.panel.clk i.select i.key0 i.key1) s.sel.level s.key0.level s.key1.level =
      owed s.sel.level s.key0.level s.key1.level s.screen
    rw [hs.sel, hs.key0, hs.key1] at hagree ⊢
    exact (target_clk s.panel i.select hapart h.exclusive).trans hagree

end Clock

theorem Inv.level_eq {s : State} (h : Inv s) (hr : Registered s) (h0 : s.key0.level = true)
    (hdue0 : s.key0.due = 0) (h1 : s.key1.level = true) (hdue1 : s.key1.due = 0) :
    s.panel.level = s.screen.level := by
  have hp0 : s.screen.key0Pressed = true := (h.key0.moved hdue0).trans h0
  have hp1 : s.screen.key1Pressed = true := (h.key1.moved hdue1).trans h1
  have hagree := h.agree
  simpa [target, owed, ControlPanel.State.counted, ControlPanel.State.add, ControlPanel.State.subtract,
    h0, h1, hp0, hp1, hr.up1 h0, hr.down1 h1] using hagree

end ECE385.Pedalboard.PanelInvariant
