import ECE385.Pedalboard.PanelInvariant

namespace ECE385.Pedalboard.PanelTracking

open KeyWatch PanelScreen PanelInvariant

section Run

variable {x : Nat → Inputs}

theorem shown_see (i : Inputs) (s : State) : Shown i (s.see i) :=
  ⟨see_level .., see_level .., see_level ..⟩

theorem shown_step (i : Inputs) (s : State) : Shown i (step i s) := by
  have hs := shown_see i s
  rw [step]
  split
  · exact ⟨hs.key0, hs.key1, hs.sel⟩
  · exact ⟨hs.key0, hs.key1, hs.sel⟩

theorem inv_step {i : Inputs} {s : State} (h : Inv s) (hr : Registered s) (hheld : Held i s)
    (hu : Undisturbed i s) : Inv (step i s) ∧ Registered (step i s) := by
  have hsee := h.see hr hheld hu
  have hs := shown_see i s
  rw [step]
  split
  · have hs' : Shown i ((s.see i).read i) := ⟨hs.key0, hs.key1, hs.sel⟩
    exact ⟨(hsee.read hs).clk hs', registered_clk hs'⟩
  · exact ⟨hsee.clk hs, registered_clk hs⟩

theorem registered_powerUp (i : Inputs) : Registered (powerUp i) :=
  ⟨fun _ => rfl, fun _ => rfl, fun _ => .inr (Nat.succ_pos 9), fun _ => .inr (Nat.succ_pos 9)⟩

theorem inv_run (hheld : ∀ n, Held (x n) (run x n)) (hu : ∀ n, Undisturbed (x n) (run x n)) (n : Nat) :
    Inv (run x n) ∧ Registered (run x n) := by
  induction n with
  | zero => exact ⟨inv_powerUp (x 0) (hu 0).apart, registered_powerUp (x 0)⟩
  | succ n ih => exact inv_step ih.1 ih.2 (hheld n) (hu n)

theorem screen_shows_panel (hheld : ∀ n, Held (x n) (run x n)) (hu : ∀ n, Undisturbed (x n) (run x n))
    (n : Nat) (h0 : (run x n).key0.released) (h1 : (run x n).key1.released) :
    Same (run x n).panel (run x n).screen := by
  obtain ⟨hinv, hr⟩ := inv_run hheld hu n
  have hlevel := hinv.level_eq hr h0.1 h0.2 h1.1 h1.2
  have hat (p : BitVec 3) := congrFun hlevel.symm p
  exact ⟨hat 0, hat 1, hat 2, hat 4, hat 3, hat 5⟩

section Settled

variable {N : Nat} (hsettled : ∀ n, N ≤ n → x n = x N)

include hsettled

theorem shown_settled {n : Nat} (hn : N < n) : Shown (x n) (run x n) := by
  obtain ⟨m, rfl⟩ := Nat.exists_eq_succ_of_ne_zero (Nat.ne_zero_of_lt hn)
  have hx : x (m + 1) = x m := by rw [hsettled m (by omega), hsettled (m + 1) (by omega)]
  show Shown (x (m + 1)) (step (x m) (run x m))
  rw [hx]
  exact shown_step (x m) (run x m)

theorem held_settled (h : ∀ n, n ≤ N → Held (x n) (run x n)) (n : Nat) : Held (x n) (run x n) := by
  by_cases hn : n ≤ N
  · exact h n hn
  · have hs := shown_settled hsettled (Nat.lt_of_not_le hn)
    exact ⟨fun hne => absurd hs.key0.symm hne, fun hne => absurd hs.key1.symm hne,
      fun hne => absurd hs.sel.symm hne⟩

theorem undisturbed_settled (h : ∀ n, n ≤ N → Undisturbed (x n) (run x n)) (n : Nat) :
    Undisturbed (x n) (run x n) := by
  by_cases hn : n ≤ N
  · exact h n hn
  · have hs := shown_settled hsettled (Nat.lt_of_not_le hn)
    refine ⟨?_, fun hne => absurd hs.sel.symm hne⟩
    rw [hsettled n (by omega)]
    exact (h N le_rfl).apart

end Settled

end Run

def counting (n : Nat) : Inputs where
  key0 := !(decide (10 ≤ n ∧ n < 20) || decide (50 ≤ n ∧ n < 60))
  key1 := true
  sw := if n < 40 then 0 else 0x080
  poll := true

theorem screen_shows_panel_counting :
    Same (run counting 75).panel (run counting 75).screen ∧ (run counting 75).panel.bitdepth = 1 := by
  have hsettled (n : Nat) (hn : 60 ≤ n) : counting n = counting 60 := by
    simp [counting, show ¬n < 40 by omega, show ¬n < 20 by omega, show ¬n < 60 by omega]
  have hheld := held_settled hsettled (by decide +kernel)
  have hu := undisturbed_settled hsettled (by decide +kernel)
  exact ⟨screen_shows_panel hheld hu 75 (by decide +kernel) (by decide +kernel), by decide +kernel⟩

/-- The selector moves from the gain to the bit depth while the up key is down. -/
def turning (n : Nat) : Inputs where
  key0 := !decide (10 ≤ n ∧ n < 30)
  key1 := true
  sw := if n < 20 then 0 else 0x080
  poll := true

theorem turning_splits_screen : (∀ n, Held (turning n) (run turning n)) ∧
    (run turning 45).key0.released ∧ (run turning 45).key1.released ∧
    ¬Same (run turning 45).panel (run turning 45).screen := by
  have hsettled (n : Nat) (hn : 30 ≤ n) : turning n = turning 30 := by
    simp [turning, show ¬n < 20 by omega, show ¬n < 30 by omega]
  exact ⟨held_settled hsettled (by decide +kernel), by decide +kernel, by decide +kernel, by decide +kernel⟩

end ECE385.Pedalboard.PanelTracking
