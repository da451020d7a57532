import ECE385.SLC3.Instruction

namespace ECE385.SLC3.Pause

open Clocked.Machine SLC3.Cycle Instruction

def Paused (c : Core) : Prop := c.slc.isdu = .pauseIR1 ∨ c.slc.isdu = .pauseIR2

theorem arch_step_paused (i : Inputs) {c : Core} (h : Paused c) : arch (step i c) = arch c := by
  obtain ⟨⟨isdu, d, hex⟩, ⟨mem, latch, q⟩⟩ := c
  obtain rfl | rfl : isdu = .pauseIR1 ∨ isdu = .pauseIR2 := h
  · rw [step_pauseIR1]; rfl
  · rw [step_pauseIR2]; rfl

theorem step_paused (i : Inputs) {c : Core} (h : Paused c) :
    Paused (step i c) ∨ AtFetch (step i c) := by
  obtain ⟨⟨isdu, d, hex⟩, ⟨mem, latch, q⟩⟩ := c
  obtain rfl | rfl : isdu = .pauseIR1 ∨ isdu = .pauseIR2 := h
  · rw [step_pauseIR1]
    cases i.cont <;> simp [Paused]
  · rw [step_pauseIR2]
    cases i.cont <;> simp [Paused, AtFetch]

theorem press (i : Inputs) {c : Core} (h : Paused c) (hi : i.cont = true) :
    (step i c).slc.isdu = .pauseIR2 := by
  obtain ⟨⟨isdu, d, hex⟩, ⟨mem, latch, q⟩⟩ := c
  obtain rfl | rfl : isdu = .pauseIR1 ∨ isdu = .pauseIR2 := h
  · simp [step_pauseIR1, hi]
  · simp [step_pauseIR2, hi]

theorem release (i : Inputs) {c : Core} (h : c.slc.isdu = .pauseIR2) (hi : i.cont = false) :
    AtFetch (step i c) := by
  obtain ⟨⟨isdu, d, hex⟩, ⟨mem, latch, q⟩⟩ := c
  obtain rfl : isdu = .pauseIR2 := h
  simp [step_pauseIR2, hi, AtFetch]

section Wait

variable (y : Nat → Inputs) {c : Core} (hc : Paused c)

include hc

theorem paused_before {n : Nat} (hbefore : ∀ m, 0 < m → m < n → ¬AtFetch (run step y c m)) (m : Nat)
    (hm : m < n) : Paused (run step y c m) := by
  induction m with
  | zero => exact hc
  | succ m ih =>
      exact (step_paused (y m) (ih (by omega))).resolve_right (hbefore (m + 1) (Nat.succ_pos m) hm)

theorem arch_before {n : Nat} (hbefore : ∀ m, 0 < m → m < n → ¬AtFetch (run step y c m)) (m : Nat)
    (hm : m ≤ n) : arch (run step y c m) = arch c := by
  induction m with
  | zero => rfl
  | succ m ih =>
      rw [run_succ, arch_step_paused (y m) (paused_before y hc hbefore m (by omega)), ih (by omega)]

theorem arch_at_return {n : Nat} (hn : FirstReturn step y c AtFetch n) :
    arch (run step y c n) = arch c :=
  arch_before y hc hn.before n le_rfl

/-- A press of Continue seen in cycle `p` and its release in a later cycle `q`
end the pause by then. -/
theorem returns_by {p q : Nat} (hpq : p < q) (hp : (y p).cont = true) (hq : (y q).cont = false) :
    ∃ m, 0 < m ∧ m ≤ q + 1 ∧ AtFetch (run step y c m) := by
  by_contra hnone
  have hbefore : ∀ m, 0 < m → m < q + 2 → ¬AtFetch (run step y c m) :=
    fun m hm hlt ha => hnone ⟨m, hm, by omega, ha⟩
  have hpaused := paused_before y hc hbefore
  -- from the press on the controller is in PauseIR2, as a release would end the pause
  have hsecond (k : Nat) (hk : p + 1 + k ≤ q) : (run step y c (p + 1 + k)).slc.isdu = .pauseIR2 := by
    induction k with
    | zero => exact press (y p) (hpaused p (by omega)) hp
    | succ k ih =>
        have hk' : p + 1 + k + 1 < q + 2 := by omega
        cases hcont : (y (p + 1 + k)).cont with
        | true => exact press _ (hpaused _ (Nat.lt_of_succ_lt hk')) hcont
        | false => exact absurd (release _ (ih (by omega)) hcont) (hbefore _ (Nat.succ_pos _) hk')
  obtain ⟨k, rfl⟩ := Nat.exists_eq_add_of_le (Nat.succ_le_of_lt hpq)
  exact hbefore _ (Nat.succ_pos _) (Nat.lt_succ_self _) (release _ (hsecond k le_rfl) hq)

end Wait

section Instruction

variable {x : Nat → Inputs} {c : Core} (hc : AtFetch c)

include hc

theorem pause_passage (hpse : Isa.decode ((arch c).fetch (x 3).sw) = .pse) :
    ∃ u, Passage step AtFetch x c 6 u ∧ Paused u ∧ arch u = (arch c).next (x 3).sw (x 9).sw := by
  obtain ⟨⟨isdu, d, hex⟩, ⟨mem, latch, q⟩⟩ := c
  obtain rfl : isdu = .s18 := hc
  have hw := dataToCPU_eq ⟨d.regFile, d.pc, d.nzp, mem, hex⟩ (x 3).sw d.pc
  have hop := (decode_pse_iff _).mp hpse
  refine ⟨_, decode_passage hw ?_, .inl hop, ?_⟩
  · intro h
    exact ISDU.State.noConfusion (hop.symm.trans h)
  · rw [Isa.State.next]
    rw [hpse]
    rfl

omit hc in
theorem hexData_fetch {d : Datapath.Registers} {hex : Datapath.Word} {ram : SramTop.Ram} {n : Nat}
    (hn : n ≤ 6) : (run step x ⟨⟨.s18, d, hex⟩, ram⟩ n).slc.hexData = hex := by
  match n, hn with
  | 0, _ | 1, _ | 2, _ | 3, _ | 4, _ | 5, _ | 6, _ => rfl

/-- The display stands still from the fetch of a PSE to the end of the pause. -/
theorem hexData_pause (hpse : Isa.decode ((arch c).fetch (x 3).sw) = .pse) {n : Nat}
    (hbefore : ∀ m, 0 < m → m < n → ¬AtFetch (run step x c m)) :
    (run step x c n).slc.hexData = c.slc.hexData := by
  rcases Nat.le_total 6 n with hge | hle
  · obtain ⟨u, hpass, hu, harch⟩ := pause_passage hc hpse
    obtain ⟨n, rfl⟩ := Nat.exists_eq_add_of_le' hge
    have hwait (m : Nat) (hm : 0 < m) (hlt : m < n) : ¬AtFetch (run step (fun j => x (j + 6)) u m) := by
      rw [← hpass.run_add]
      exact hbefore _ (Nat.add_pos_left hm 6) (Nat.add_lt_add_right hlt 6)
    have hhex := congrArg Isa.State.hex ((arch_before _ hu hwait n le_rfl).trans harch)
    rw [← hpass.run_add, Isa.State.next, hpse] at hhex
    exact hhex
  · obtain ⟨⟨isdu, d, hex⟩, ram⟩ := c
    obtain rfl : isdu = .s18 := hc
    exact hexData_fetch hle

/-- However long an instruction takes, on its return to S_18 it has done what
the instruction set says. -/
theorem arch_at_fetch {n : Nat} (hn : FirstReturn step x c AtFetch n) :
    arch (run step x c n) = (arch c).next (x 3).sw (x 9).sw := by
  by_cases hpse : Isa.decode ((arch c).fetch (x 3).sw) = .pse
  · obtain ⟨u, hpass, hu, harch⟩ := pause_passage hc hpse
    obtain ⟨m, rfl⟩ := Nat.exists_eq_add_of_le' (hpass.le_of_firstReturn hn)
    rw [hpass.run_add, arch_at_return _ hu (hpass.firstReturn_iff.mp hn), harch]
  · obtain ⟨m, t, _, ht, harch⟩ := instruction_excursion x c hc hpse
    rw [hn.unique ht.toFirstReturn, ht.lands, harch]

theorem return_of_release {p q : Nat} (hp6 : 6 ≤ p) (hpq : p < q) (hp : (x p).cont = true)
    (hq : (x q).cont = false) : ∃ n, n ≤ max 11 (q + 1) ∧ FirstReturn step x c AtFetch n := by
  by_cases hpse : Isa.decode ((arch c).fetch (x 3).sw) = .pse
  · obtain ⟨u, hpass, hu, _⟩ := pause_passage hc hpse
    obtain ⟨p, rfl⟩ := Nat.exists_eq_add_of_le' hp6
    obtain ⟨q, rfl⟩ := Nat.exists_eq_add_of_le' (hp6.trans hpq.le)
    have hpq' : p < q := by omega
    obtain ⟨m, hm, hmq, harrived⟩ := returns_by (fun k => x (k + 6)) hu hpq' hp hq
    obtain ⟨n, hn, hfirst⟩ := FirstReturn.exists_le hm harrived
    exact ⟨n + 6, by omega, hpass.firstReturn_iff.mpr hfirst⟩
  · obtain ⟨n, t, hn, ht, _⟩ := instruction_excursion x c hc hpse
    exact ⟨n, by omega, ht.toFirstReturn⟩

end Instruction

end ECE385.SLC3.Pause
