import ECE385.SLC3.Pause

namespace ECE385.SLC3.Refinement

open Clocked.Machine
open SramTop (State Inputs AtS18)
open SLC3.Cycle (Core)

def core (s : State) : Core := ⟨s.slc, s.ram⟩

def arch (s : State) : Isa.State := Instruction.arch (core s)

/-- The cycle that the processor sees: button levels after the synchronisers. -/
def coreInputs (i : Inputs) (s : State) : Cycle.Inputs :=
  ⟨i.sw, s.runAh, s.contAh, i.undriven, i.dontcare⟩

def coreStream (x : Nat → Inputs) (s : State) (n : Nat) : Cycle.Inputs :=
  coreInputs (x n) (SramTop.run x s n)

theorem coreStream_cont (x : Nat → Inputs) (s : State) (n : Nat) :
    (coreStream x s n).cont = (SramTop.run x s n).contAh := rfl

theorem core_step (i : Inputs) (s : State) (hreset : s.resetAh = false) (hidle : s.weSelect = false) :
    core (SramTop.step i s) = Cycle.step (coreInputs i s) (core s) := by
  simp only [core, SramTop.step, Cycle.step, coreInputs, State.slcInputs, State.addr, State.dataToSRAM,
    State.we, hreset, hidle, Bool.false_eq_true, if_false]

theorem weSelect_step (i : Inputs) (s : State) (hreset : s.resetAh = false)
    (hreset' : (SramTop.step i s).resetAh = false) (hidle : s.weSelect = false) :
    (SramTop.step i s).weSelect = false := by
  have hlevel : (!i.run && !i.cont) = false := hreset'
  simp only [State.weSelect, SramTop.step, Instantiateram.Loader.step, hreset, hlevel, Bool.or_self,
    Bool.false_eq_true, if_false]
  exact Instantiateram.advance_released hidle

section Quiet

variable {x : Nat → Inputs} {s : State} {N : Nat}
  (hreset : ∀ m, m < N → (SramTop.run x s m).resetAh = false) (hidle : s.weSelect = false)

include hreset hidle

theorem weSelect_run (n : Nat) (hn : n < N) : (SramTop.run x s n).weSelect = false := by
  induction n with
  | zero => exact hidle
  | succ n ih =>
      exact weSelect_step (x n) _ (hreset n (by omega)) (hreset (n + 1) hn) (ih (by omega))

theorem core_run (n : Nat) (hn : n ≤ N) :
    core (SramTop.run x s n) = run Cycle.step (coreStream x s) (core s) n := by
  induction n with
  | zero => rfl
  | succ n ih =>
      rw [run_succ, ← ih (by omega)]
      exact core_step (x n) _ (hreset n hn) (weSelect_run hreset hidle n hn)

theorem firstReturn_iff (n : Nat) (hn : n ≤ N) :
    FirstReturn SramTop.step x s AtS18 n ↔
      FirstReturn Cycle.step (coreStream x s) (core s) Instruction.AtFetch n := by
  refine FirstReturn.congr fun m hm => ?_
  rw [← core_run hreset hidle m (hm.trans hn)]
  rfl

theorem arch_at_return (hfetch : AtS18 s)
    (hn : FirstReturn SramTop.step x s AtS18 N) :
    arch (SramTop.run x s N) = (arch s).next (x 3).sw (x 9).sw := by
  have hc : Instruction.AtFetch (core s) := hfetch
  rw [arch, core_run hreset hidle N le_rfl]
  exact Pause.arch_at_fetch hc ((firstReturn_iff hreset hidle N le_rfl).mp hn)

theorem hexData_pause (hfetch : AtS18 s) (hpse : Isa.decode ((arch s).fetch (x 3).sw) = .pse) {n : Nat}
    (hn : n ≤ N) (hbefore : ∀ m, 0 < m → m < n → ¬AtS18 (SramTop.run x s m)) :
    (SramTop.run x s n).slc.hexData = s.slc.hexData := by
  have hc : Instruction.AtFetch (core s) := hfetch
  have hpause := Pause.hexData_pause (x := coreStream x s) hc hpse (n := n) fun m hm hlt hat => ?_
  · rw [← core_run hreset hidle n hn] at hpause
    exact hpause
  · rw [← core_run hreset hidle m (by omega)] at hat
    exact hbefore m hm hlt hat

end Quiet

theorem exists_return {x : Nat → Inputs} {s : State} (hreset : ∀ m, (SramTop.run x s m).resetAh = false)
    (hidle : s.weSelect = false) (hfetch : AtS18 s)
    (hpse : Isa.decode ((arch s).fetch (x 3).sw) ≠ .pse) :
    ∃ n, n ≤ 11 ∧ FirstReturn SramTop.step x s AtS18 n := by
  have hc : Instruction.AtFetch (core s) := hfetch
  obtain ⟨n, t, hn, ht, _⟩ := Instruction.instruction_excursion (coreStream x s) (core s) hc hpse
  exact ⟨n, hn, (firstReturn_iff (fun m _ => hreset m) hidle n le_rfl).mpr ht.toFirstReturn⟩

theorem return_of_release {x : Nat → Inputs} {s : State} (hreset : ∀ m, (SramTop.run x s m).resetAh = false)
    (hidle : s.weSelect = false) (hfetch : AtS18 s) {p q : Nat} (hp : 6 ≤ p) (hpq : p < q)
    (hpress : (SramTop.run x s p).contAh = true) (hrelease : (SramTop.run x s q).contAh = false) :
    ∃ n, n ≤ max 11 (q + 1) ∧ FirstReturn SramTop.step x s AtS18 n := by
  rw [← coreStream_cont] at hpress hrelease
  have hc : Instruction.AtFetch (core s) := hfetch
  obtain ⟨n, hn, hfirst⟩ := Pause.return_of_release hc hp hpq hpress hrelease
  exact ⟨n, hn, (firstReturn_iff (fun m _ => hreset m) hidle n le_rfl).mpr hfirst⟩

/-- From S_18, with Reset low and the initialiser idle, the cycles up to the
next arrival in S_18 perform one instruction of the instruction set. Only a
pause can last for ever, and a press of Continue with a later release ends it. -/
theorem slc3_refines_isa (x : Nat → Inputs) (s : State) (hfetch : AtS18 s)
    (hreset : ∀ n, (SramTop.run x s n).resetAh = false) (hidle : s.weSelect = false) :
    (∀ n, FirstReturn SramTop.step x s AtS18 n →
      arch (SramTop.run x s n) = (arch s).next (x 3).sw (x 9).sw) ∧
    (Isa.decode ((arch s).fetch (x 3).sw) ≠ .pse →
      ∃ n, n ≤ 11 ∧ FirstReturn SramTop.step x s AtS18 n) ∧
    (∀ p q, 6 ≤ p → p < q → (SramTop.run x s p).contAh = true → (SramTop.run x s q).contAh = false →
      ∃ n, n ≤ max 11 (q + 1) ∧ FirstReturn SramTop.step x s AtS18 n) := by
  refine ⟨fun n hn => ?_, exists_return hreset hidle hfetch, fun p q hp hpq hpress hrelease => ?_⟩
  · exact arch_at_return (fun m _ => hreset m) hidle hfetch hn
  · exact return_of_release hreset hidle hfetch hp hpq hpress hrelease

theorem slc3_refines_isa_addi :
    let x := fun _ => SramTop.handsOff 0
    let s := SramTop.settled (fun _ => Assembler.opADDi Assembler.r1 Assembler.r0 5)
    ∃ n, n ≤ 11 ∧ (arch (SramTop.run x s n)).reg 1 = 5 ∧ (arch (SramTop.run x s n)).pc = 1 := by
  obtain ⟨harch, hreturn, _⟩ := slc3_refines_isa (fun _ => SramTop.handsOff 0)
    (SramTop.settled (fun _ => Assembler.opADDi Assembler.r1 Assembler.r0 5)) rfl
    (SramTop.settled_resetAh _ 0) rfl
  obtain ⟨n, hn, hfirst⟩ := hreturn (by decide)
  refine ⟨n, hn, ?_, ?_⟩
  · rw [harch n hfirst]; decide
  · rw [harch n hfirst]; decide

end ECE385.SLC3.Refinement
