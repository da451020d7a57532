import ECE385.SLC3.Refinement

namespace ECE385.SLC3.Loading

open Clocked.Machine (run_succ FirstReturn)
open Datapath (Word)
open Refinement (arch)
open SramTop (State Inputs run AtS18)

theorem halted_of_reset (i : Inputs) {s : State} (h : s.resetAh = true) :
    (SramTop.step i s).slc.isdu = .halted :=
  if_pos h

theorem isdu_step (i : Inputs) {s : State} (h : s.resetAh = false) :
    (SramTop.step i s).slc.isdu =
      ISDU.nextState s.slc.isdu s.runAh s.contAh s.slc.opcode s.slc.dp.ben :=
  if_neg (by simp [State.slcInputs, h])

theorem loader_step (i : Inputs) {s : State} (hreset : s.resetAh = false)
    (hreset' : (SramTop.step i s).resetAh = false) : (SramTop.step i s).loader = s.loader.advance := by
  have hlevel : (!i.run && !i.cont) = false := hreset'
  simp only [SramTop.step, Instantiateram.Loader.step, hreset, hlevel, Bool.or_self,
    Bool.false_eq_true, if_false]

theorem waits_step (i : Inputs) {s : State} (h : s.slc.isdu = .halted) (hrun : s.runAh = false) :
    (SramTop.step i s).slc.isdu = .halted := by
  cases hreset : s.resetAh with
  | true => exact halted_of_reset i hreset
  | false => rw [isdu_step i hreset, h, hrun]; rfl

/-- MDR takes a word from the memory at the end of this cycle. -/
def LoadsMemory (s : State) : Prop := (s.slc.control.ldMDR && s.slc.oe) = true

theorem accessCycle_step (i : Inputs) {s : State} {k : Nat}
    (h : ISDU.accessCycle (SramTop.step i s).slc.isdu = k + 2) :
    s.resetAh = false ∧ ISDU.accessCycle s.slc.isdu = k + 1 := by
  cases hreset : s.resetAh with
  | true =>
      rw [halted_of_reset i hreset] at h
      exact absurd h (by simp [ISDU.accessCycle])
  | false =>
      rw [isdu_step i hreset] at h
      exact ⟨rfl, ISDU.accessCycle_nextState _ _ _ _ _ h⟩

theorem active_of_oe {s : State} (h : s.slc.oe = true) : s.slc.isdu ≠ .halted := by
  intro hhalted
  rw [Slc3.State.oe, Slc3.State.control, hhalted] at h
  exact Bool.noConfusion h

theorem active_of_we {s : State} (h : s.slc.we = true) : s.slc.isdu ≠ .halted := by
  intro hhalted
  rw [Slc3.State.we, Slc3.State.control, hhalted] at h
  exact Bool.noConfusion h

/-- The first cycle of a reset: the initialiser has been cleared at once, the
controller will be at the next edge. -/
def ResetRises (x : Nat → Inputs) (s : State) (n : Nat) : Prop :=
  (run x s (n + 1)).resetAh = true ∧ (run x s n).resetAh = false

/-- Before time `N` Run is not seen pressed, with Reset low, while the
initialiser has more than one word left to write. -/
def WaitsForLoader (x : Nat → Inputs) (s : State) (N : Nat) : Prop :=
  ∀ n, n < N → (run x s n).resetAh = false → (run x s n).weSelect = true →
    (run x s n).loader.address ≠ 0xff#16 → (run x s n).runAh = false

section Exclusion

variable {x : Nat → Inputs} {s : State} {N : Nat} (hreset : s.resetAh = true) (hwait : WaitsForLoader x s N)

include hreset hwait

theorem halted_while_loading (n : Nat) (hn : n < N) (hload : (run x s (n + 1)).weSelect = true) :
    (run x s (n + 1)).slc.isdu = .halted ∨ ResetRises x s n := by
  induction n with
  | zero => exact .inl (halted_of_reset (x 0) hreset)
  | succ n ih =>
      cases hlow : (run x s (n + 1)).resetAh with
      | true => exact .inl (halted_of_reset (x (n + 1)) hlow)
      | false =>
          cases hnext : (run x s (n + 2)).resetAh with
          | true => exact .inr ⟨hnext, hlow⟩
          | false =>
              rw [State.weSelect, run, run_succ, loader_step _ hlow hnext] at hload
              obtain ⟨hwren, haddress⟩ := Instantiateram.advance_wren hload
              have hhalted := (ih (by omega) hwren).resolve_right fun h => Bool.false_ne_true (hlow.symm.trans h.1)
              exact .inl (waits_step (x (n + 1)) hhalted (hwait (n + 1) hn hlow hwren haddress))

theorem port_released {n : Nat} (hn : n ≤ N) (hlow : (run x s n).resetAh = false)
    (hactive : (run x s n).slc.isdu ≠ .halted) : (run x s n).weSelect = false := by
  by_contra hload
  rw [Bool.not_eq_false] at hload
  cases n with
  | zero => exact Bool.false_ne_true (hlow.symm.trans hreset)
  | succ n =>
      rcases halted_while_loading hreset hwait n hn hload with h | h
      · exact hactive h
      · exact Bool.false_ne_true (hlow.symm.trans h.1)

theorem loads_own_read {n : Nat} (hn : n + 2 ≤ N) (hlow : (run x s (n + 2)).resetAh = false)
    (hloads : LoadsMemory (run x s (n + 2))) :
    (∀ m, n ≤ m → m ≤ n + 2 → (run x s m).weSelect = false) ∧
      (run x s (n + 2)).ram.q = (run x s n).ram.mem ((run x s n).slc.addr.setWidth 10) := by
  have hthird := (ISDU.accessCycle_eq_three_iff ..).mpr hloads
  obtain ⟨hlow1, hsecond⟩ := accessCycle_step (x (n + 1)) hthird
  obtain ⟨hlow0, hfirst⟩ := accessCycle_step (x n) hsecond
  have hoe {t : State} {k : Nat} (h : ISDU.accessCycle t.slc.isdu = k + 1) : t.slc.oe = true :=
    (ISDU.accessCycle_pos_iff ..).mp (by omega)
  have hport0 := port_released hreset hwait (by omega) hlow0 (active_of_oe (hoe hfirst))
  have hport1 := port_released hreset hwait (by omega) hlow1 (active_of_oe (hoe hsecond))
  have hport2 := port_released hreset hwait hn hlow (active_of_oe (hoe hthird))
  refine ⟨fun m hm hle => ?_, ?_⟩
  · obtain rfl | rfl | rfl : m = n ∨ m = n + 1 ∨ m = n + 2 := by omega
    · exact hport0
    · exact hport1
    · exact hport2
  · have hwe : (run x s n).slc.we = false := by
      have hexclusive := ISDU.strobes_exclusive (run x s n).slc.isdu
        ((run x s n).slc.dp.ir.getLsbD 5) ((run x s n).slc.dp.ir.getLsbD 11)
      have hread := hoe hfirst
      rw [Slc3.State.oe, Slc3.State.control] at hread
      rw [hread, Bool.true_and] at hexclusive
      exact hexclusive
    rw [run, run_succ, run_succ]
    simp only [SramTop.step, SramTop.Ram.step, State.we, State.addr, hport0, hwe, hoe hfirst,
      Bool.false_eq_true, if_false, if_true]

theorem store_reaches_memory {n : Nat} (hn : n ≤ N) (hlow : (run x s n).resetAh = false)
    (hwe : (run x s n).slc.we = true) :
    (run x s n).weSelect = false ∧
      (run x s (n + 1)).ram.mem =
        Function.update (run x s n).ram.mem ((run x s n).slc.addr.setWidth 10) (run x s n).slc.dataToSRAM := by
  have hport := port_released hreset hwait hn hlow (active_of_we hwe)
  refine ⟨hport, ?_⟩
  rw [run, run_succ]
  simp only [SramTop.step, SramTop.Ram.step, State.we, State.addr, State.dataToSRAM, hport, hwe,
    Bool.false_eq_true, if_false, if_true]

end Exclusion

/-- From the first reset on the controller is halted whenever the initialiser
owns the memory port, save for the first cycle of a later reset, as long as Run
waits for the initialiser. Every word that MDR takes is then one that the
processor asked for, and every store reaches the memory. -/
theorem loading_excludes_execution (x : Nat → Inputs) (s : State) (N : Nat) (hreset : s.resetAh = true)
    (hwait : WaitsForLoader x s N) :
    (∀ n, n < N → (run x s (n + 1)).weSelect = true →
      (run x s (n + 1)).slc.isdu = .halted ∨ ResetRises x s n) ∧
    (∀ n, n + 2 ≤ N → (run x s (n + 2)).resetAh = false → LoadsMemory (run x s (n + 2)) →
      (∀ m, n ≤ m → m ≤ n + 2 → (run x s m).weSelect = false) ∧
        (run x s (n + 2)).ram.q = (run x s n).ram.mem ((run x s n).slc.addr.setWidth 10)) ∧
    (∀ n, n ≤ N → (run x s n).resetAh = false → (run x s n).slc.we = true →
      (run x s n).weSelect = false ∧
        (run x s (n + 1)).ram.mem =
          Function.update (run x s n).ram.mem ((run x s n).slc.addr.setWidth 10)
            (run x s n).slc.dataToSRAM) := by
  refine ⟨?_, ?_, ?_⟩
  · intro n hn hload
    exact halted_while_loading hreset hwait n hn hload
  · intro n hn hlow hloads
    exact loads_own_read hreset hwait hn hlow hloads
  · intro n hn hlow hwe
    exact store_reaches_memory hreset hwait hn hlow hwe

def held (mem : BitVec 10 → Word) : State :=
  { SramTop.settled mem with runS := false, contS := false }

/-- Run is pressed in cycle 256. -/
def pressRun (sw : BitVec 10) (n : Nat) : Inputs := { SramTop.handsOff sw with run := decide (n ≠ 256) }

/-- The display test, started with 3 on the switches: the initialiser is at work,
the first word is fetched, and the test shows its 3. -/
theorem loading_excludes_execution_pressRun :
    (run (pressRun 3) (held fun _ => 0) 2).slc.isdu = .halted ∧
    (run (pressRun 3) (held fun _ => 0) 261).ram.q = 0x5020 ∧
    (run (pressRun 3) (held fun _ => 0) 303).ram.mem 1023 = 3 := by
  have hwait : WaitsForLoader (pressRun 3) (held fun _ => 0) 302 := by
    intro n _ hlow hload _
    cases n with
    | zero => exact Bool.noConfusion hlow
    | succ n =>
        show (!decide (n ≠ 256)) = false
        rw [Bool.not_eq_false', decide_eq_true_iff]
        rintro rfl
        exact absurd hload (by decide +kernel)
  obtain ⟨hhalted, hloads, hstores⟩ := loading_excludes_execution _ _ 302 rfl hwait
  refine ⟨(hhalted 1 (by decide) rfl).resolve_right fun h => Bool.noConfusion h.1, ?_, ?_⟩
  · have hread : LoadsMemory (run (pressRun 3) (held fun _ => 0) 261) := by
      rw [LoadsMemory]
      decide +kernel
    rw [(hloads 259 (by decide) rfl hread).2]
    decide +kernel
  · rw [(hstores 302 le_rfl rfl (by decide +kernel)).2]
    decide +kernel

/-- Continue let go before Run: the controller leaves Halted in the cycle in
which the initialiser writes its second word. -/
theorem early_run_overlaps_loading :
    ¬ ∀ (x : Nat → Inputs) (s : State) (n : Nat), s.resetAh = true →
      (run x s (n + 1)).weSelect = true → (run x s (n + 1)).slc.isdu = .halted := by
  intro h
  have hs18 := h (fun _ => { SramTop.handsOff 0 with run := false }) (held fun _ => 0) 1 rfl rfl
  exact ISDU.State.noConfusion hs18

section Image

def written (k : Nat) (mem : BitVec 10 → Word) (a : BitVec 10) : Word :=
  if a.toNat < k then Instantiateram.data (a.setWidth 16) else mem a

theorem written_succ {k : Nat} (hk : k < 256) (mem : BitVec 10 → Word) :
    Function.update (written k mem) ((BitVec.ofNat 16 k).setWidth 10)
      (Instantiateram.data (BitVec.ofNat 16 k)) = written (k + 1) mem := by
  funext a
  have hsame : a = (BitVec.ofNat 16 k).setWidth 10 ↔ a.toNat = k := by
    rw [← BitVec.toNat_inj, BitVec.toNat_setWidth, BitVec.toNat_ofNat]
    omega
  by_cases ha : a = (BitVec.ofNat 16 k).setWidth 10
  · have hk' := hsame.mp ha
    rw [Function.update_apply, if_pos ha, written, if_pos (by omega)]
    congr 1
    apply BitVec.eq_of_toNat_eq
    rw [BitVec.toNat_setWidth, BitVec.toNat_ofNat, hk']
  · have hne := mt hsame.mpr ha
    rw [Function.update_apply, if_neg ha]
    unfold written
    by_cases hlt : a.toNat < k
    · rw [if_pos hlt, if_pos (by omega)]
    · rw [if_neg hlt, if_neg (by omega)]

/-- What `k` cycles without a reset make of a halted machine. -/
structure Filling (mem : BitVec 10 → Word) (k : Nat) (s : State) : Prop where
  arch : arch s = ⟨fun _ => 0, 0, 0, written (min k 256) mem, 0⟩
  loading : k < 256 → s.loader = ⟨.memWrite, BitVec.ofNat 16 k⟩
  released : 256 ≤ k → s.weSelect = false

theorem arch_step_reset (i : Inputs) {s : State} (h : s.resetAh = true) :
    arch (SramTop.step i s) = ⟨fun _ => 0, 0, 0, (SramTop.step i s).ram.mem, 0⟩ := by
  simp only [arch, Instruction.arch, Refinement.core, SramTop.step, Slc3.step, State.slcInputs, h,
    Datapath.step_reset, Slc3.hexDataNext, if_true]

theorem arch_step_halted (i : Inputs) {s : State} (hlow : s.resetAh = false) (h : s.slc.isdu = .halted) :
    arch (SramTop.step i s) = { arch s with mem := (SramTop.step i s).ram.mem } := by
  obtain ⟨runS, contS, ⟨isdu, d, hex⟩, loader, ram⟩ := s
  obtain rfl : isdu = .halted := h
  simp only [arch, Instruction.arch, Refinement.core, SramTop.step, Slc3.step, State.slcInputs, hlow]
  rfl

theorem filling_start (i : Inputs) {s : State} (h : s.resetAh = true) :
    Filling (SramTop.step i s).ram.mem 0 (SramTop.step i s) := by
  refine ⟨?_, fun _ => ?_, fun h => absurd h (by decide)⟩
  · rw [arch_step_reset i h]
    congr 1
  · simp only [SramTop.step, Instantiateram.Loader.step, h, Bool.true_or, if_true]
    rfl

theorem filling_step (i : Inputs) {mem : BitVec 10 → Word} {k : Nat} {s : State}
    (hlow : s.resetAh = false) (hlow' : (SramTop.step i s).resetAh = false) (h : s.slc.isdu = .halted)
    (hs : Filling mem k s) : Filling mem (k + 1) (SramTop.step i s) := by
  have hmem : s.ram.mem = written (min k 256) mem := congrArg Isa.State.mem hs.arch
  have hloader := loader_step i hlow hlow'
  by_cases hk : k < 256
  · have hown : s.weSelect = true := by rw [State.weSelect, hs.loading hk]; rfl
    have hwritten : (SramTop.step i s).ram.mem = written (k + 1) mem := by
      simp only [SramTop.step, SramTop.Ram.step, State.we, State.addr, State.dataToSRAM, hown, if_true,
        hs.loading hk, hmem, Nat.min_eq_left hk.le]
      exact written_succ hk mem
    rw [hs.loading hk] at hloader
    refine ⟨?_, fun hk' => ?_, fun hk' => ?_⟩
    · rw [arch_step_halted i hlow h, hwritten, hs.arch, Nat.min_eq_left (Nat.succ_le_of_lt hk)]
    · have hne : BitVec.ofNat 16 k ≠ 0xff#16 := by
        intro heq
        have := congrArg BitVec.toNat heq
        simp at this
        omega
      rw [hloader]
      simp [Instantiateram.Loader.advance, Instantiateram.Loader.nextState,
        Instantiateram.Loader.accumulate, hne, BitVec.ofNat_add]
    · obtain rfl : k = 255 := by omega
      rw [State.weSelect, hloader]
      rfl
  · have hidle := hs.released (by omega)
    have hwe : s.slc.we = false := Bool.eq_false_of_not_eq_true fun hwe => active_of_we hwe h
    have hkept : (SramTop.step i s).ram.mem = s.ram.mem := by
      simp only [SramTop.step, SramTop.Ram.step, State.we, hidle, hwe, Bool.false_eq_true, if_false]
    refine ⟨?_, fun hk' => absurd hk' (by omega), fun _ => ?_⟩
    · rw [arch_step_halted i hlow h, hkept, hmem, hs.arch, Nat.min_eq_right (by omega),
        Nat.min_eq_right (by omega)]
    · exact Refinement.weSelect_step i s hlow hlow' hidle

theorem halted_before {x : Nat → Inputs} {s : State} {n : Nat} (hreset : s.resetAh = true)
    (hn : ∀ m, 0 < m → m < n → (run x s m).slc.isdu ≠ .s18) (k : Nat) (hk : k + 1 < n) :
    (run x s (k + 1)).slc.isdu = .halted := by
  induction k with
  | zero => exact halted_of_reset (x 0) hreset
  | succ k ih =>
      cases hrun : (run x s (k + 1)).runAh with
      | false => exact waits_step (x (k + 1)) (ih (by omega)) hrun
      | true =>
          cases hlow : (run x s (k + 1)).resetAh with
          | true => exact halted_of_reset (x (k + 1)) hlow
          | false =>
              refine absurd ?_ (hn (k + 2) (Nat.succ_pos _) hk)
              rw [run, run_succ, isdu_step (x (k + 1)) hlow, ih (by omega), hrun]
              rfl

section Start

variable {x : Nat → Inputs} {s : State} {n : Nat} (hreset : s.resetAh = true)
  (hlow : ∀ m, 0 < m → m ≤ n → (run x s m).resetAh = false)

include hreset hlow

theorem filling_run (hn : ∀ m, 0 < m → m < n → (run x s m).slc.isdu ≠ .s18) (k : Nat) (hk : k + 1 ≤ n) :
    Filling (run x s 1).ram.mem k (run x s (k + 1)) := by
  induction k with
  | zero => exact filling_start (x 0) hreset
  | succ k ih =>
      exact filling_step (x (k + 1)) (hlow _ (Nat.succ_pos k) (by omega)) (hlow _ (Nat.succ_pos _) hk)
        (halted_before hreset hn k hk) (ih (by omega))

theorem arch_at_start (hn : FirstReturn SramTop.step x s AtS18 n)
    (hidle : (run x s n).weSelect = false) :
    arch (run x s n) = ⟨fun _ => 0, 0, 0, written 256 (run x s 1).ram.mem, 0⟩ := by
  obtain ⟨k, rfl⟩ := Nat.exists_eq_succ_of_ne_zero (Nat.pos_iff_ne_zero.mp hn.pos)
  have hs := filling_run hreset hlow hn.before k le_rfl
  have hk : 256 ≤ k := by
    by_contra hlt
    rw [State.weSelect, hs.loading (by omega)] at hidle
    exact Bool.noConfusion hidle
  rw [hs.arch, Nat.min_eq_right hk]

theorem start_of_run {k : Nat} (hn : n = k + 2) (hwait : ∀ m, 0 < m → m ≤ k → (run x s m).runAh = false)
    (hrun : (run x s (k + 1)).runAh = true) (hk : 255 ≤ k) :
    FirstReturn SramTop.step x s AtS18 n ∧ (run x s n).weSelect = false := by
  subst hn
  have hhalted (m : Nat) (hm : m ≤ k) : (run x s (m + 1)).slc.isdu = .halted := by
    induction m with
    | zero => exact halted_of_reset (x 0) hreset
    | succ m ih => exact waits_step (x (m + 1)) (ih (by omega)) (hwait _ (Nat.succ_pos m) hm)
  have houtside : ∀ m, 0 < m → m < k + 2 → (run x s m).slc.isdu ≠ .s18 := by
    intro m hm hlt
    obtain ⟨m, rfl⟩ := Nat.exists_eq_succ_of_ne_zero (Nat.pos_iff_ne_zero.mp hm)
    rw [hhalted m (by omega)]
    exact ISDU.State.noConfusion
  have harrived : (run x s (k + 2)).slc.isdu = .s18 := by
    rw [run, run_succ, isdu_step (x (k + 1)) (hlow _ (Nat.succ_pos k) (by omega)), hhalted k le_rfl, hrun]
    rfl
  exact ⟨⟨Nat.succ_pos _, harrived, houtside⟩,
    (filling_run hreset hlow houtside (k + 1) le_rfl).released (by omega)⟩

end Start

end Image

end ECE385.SLC3.Loading
