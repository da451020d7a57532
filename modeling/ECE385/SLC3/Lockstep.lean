import ECE385.SLC3.Loading
import ECE385.SLC3.TestTop

namespace ECE385.SLC3.Lockstep

open Clocked.Machine (run_succ)
open Datapath (Word)

/-- The processor accesses nothing in this cycle, or one of the words 0 to 254,
or the switches and the display. -/
def InRange (s : Slc3.State) : Prop :=
  (s.oe || s.we) = true → s.addr.toNat ≤ 254 ∨ s.addr = Slc3.mappedAddress

instance : DecidablePred InRange := fun s =>
  inferInstanceAs (Decidable ((s.oe || s.we) = true → s.addr.toNat ≤ 254 ∨ s.addr = Slc3.mappedAddress))

def SameWords (memArray : BitVec 8 → Word) (mem : BitVec 10 → Word) : Prop :=
  ∀ a, a ≤ 254 → memArray (BitVec.ofNat 8 a) = mem (BitVec.ofNat 10 a)

theorem SameWords.read {memArray : BitVec 8 → Word} {mem : BitVec 10 → Word} (h : SameWords memArray mem)
    {address : Word} (ha : address.toNat ≤ 254) :
    memArray ((address.setWidth 10).setWidth 8) = mem (address.setWidth 10) := by
  have hword := h address.toNat ha
  rw [BitVec.ofNat_toNat, BitVec.ofNat_toNat] at hword
  rw [BitVec.setWidth_setWidth_of_le _ (by decide)]
  exact hword

/-- A store to xFFFF lands on word 255 of one memory and on word 1023 of the
other, so they still agree below. -/
theorem SameWords.write {memArray : BitVec 8 → Word} {mem : BitVec 10 → Word} (h : SameWords memArray mem)
    {address : Word} (ha : address.toNat ≤ 254 ∨ address = Slc3.mappedAddress) (v : Word) :
    SameWords (Function.update memArray ((address.setWidth 10).setWidth 8) v)
      (Function.update mem (address.setWidth 10) v) := by
  intro a hle
  have hsame : BitVec.ofNat 8 a = (address.setWidth 10).setWidth 8 ↔ BitVec.ofNat 10 a = address.setWidth 10 := by
    have hlast : Slc3.mappedAddress.toNat = 65535 := rfl
    rw [← BitVec.toNat_inj, ← BitVec.toNat_inj]
    simp only [BitVec.toNat_ofNat, BitVec.toNat_setWidth]
    rcases ha with ha | rfl <;> omega
  rw [Function.update_apply, Function.update_apply, h a hle]
  simp only [hsame]

section Step

variable {s : Slc3.State} {i j : Slc3.Inputs}

/-- The processor takes the word that the memory offers in the third cycle of an
access only, and never a net that nothing drives. -/
theorem step_congr (hi : i.reset = false) (hj : j.reset = false) (hrun : i.run = j.run)
    (hcont : i.cont = j.cont)
    (hword : ISDU.accessCycle s.isdu = 3 →
      Slc3.dataToCPU s.addr true false i.sw i.dataFromSRAM =
        Slc3.dataToCPU s.addr true false j.sw j.dataFromSRAM) :
    Slc3.step i s = Slc3.step j s := by
  obtain ⟨sw, reset, run, cont, dataFromSRAM, undriven⟩ := i
  obtain ⟨sw', reset', run', cont', dataFromSRAM', undriven'⟩ := j
  obtain rfl : reset = false := hi
  obtain rfl : reset' = false := hj
  obtain rfl : run = run' := hrun
  obtain rfl : cont = cont' := hcont
  obtain ⟨isdu, d, hex⟩ := s
  cases isdu with
  | s33_3 => exact congrArg (fun v => (⟨.s35, { d with mdr := v, led := 0 }, hex⟩ : Slc3.State)) (hword rfl)
  | s25_3 => exact congrArg (fun v => (⟨.s27, { d with mdr := v, led := 0 }, hex⟩ : Slc3.State)) (hword rfl)
  | _ => rfl

/-- The address stays put while the memory is read. -/
theorem addr_step (hi : i.reset = false) (hread : 0 < ISDU.accessCycle s.isdu) :
    (Slc3.step i s).addr = s.addr := by
  obtain ⟨sw, reset, run, cont, dataFromSRAM, undriven⟩ := i
  obtain rfl : reset = false := hi
  obtain ⟨isdu, d, hex⟩ := s
  cases isdu with
  | s33_1 | s33_2 | s33_3 | s25_1 | s25_2 | s25_3 => rfl
  | _ => exact absurd hread (Nat.lt_irrefl 0)

theorem oe_of_accessCycle (hread : 0 < ISDU.accessCycle s.isdu) : s.oe = true ∧ s.we = false := by
  have hoe : s.oe = true := (ISDU.accessCycle_pos_iff ..).mp hread
  have hexclusive : (s.oe && s.we) = false := ISDU.strobes_exclusive ..
  rw [hoe, Bool.true_and] at hexclusive
  exact ⟨hoe, hexclusive⟩

end Step

/-- The machines in lockstep. The last two fields follow a read through the two
memories: the slower one is behind by one register. -/
structure Locked (t : TestTop.State) (s : SramTop.State) : Prop where
  runS : t.runS = s.runS
  contS : t.contS = s.contS
  slc : t.slc = s.slc
  words : SameWords t.mem.memArray s.ram.mem
  idle : s.weSelect = false
  latched : ISDU.accessCycle s.slc.isdu = 2 → s.ram.latch = s.ram.mem (s.slc.addr.setWidth 10)
  offered : ISDU.accessCycle s.slc.isdu = 3 →
    s.ram.q = s.ram.mem (s.slc.addr.setWidth 10) ∧
      t.mem.memOut = some (t.mem.memArray ((s.slc.addr.setWidth 10).setWidth 8))

section Edge

variable {j : TestTop.Inputs} {i : SramTop.Inputs} {t : TestTop.State} {s : SramTop.State}
  (hsame : j.sw = i.sw ∧ j.run = i.run ∧ j.cont = i.cont) (h : Locked t s) (hlow : s.resetAh = false)
  (hrange : InRange s.slc)

theorem Locked.resetAh (h : Locked t s) : t.resetAh = s.resetAh := by
  rw [TestTop.State.resetAh, SramTop.State.resetAh, h.runS, h.contS]

include hsame h hlow hrange in
theorem Locked.slc_step : (TestTop.step j t).slc = (SramTop.step i s).slc := by
  have hlow' : t.resetAh = false := h.resetAh.trans hlow
  simp only [TestTop.step, SramTop.step, h.slc]
  refine step_congr hlow' hlow ?_ ?_ fun hthird => ?_
  · exact congrArg (!·) h.runS
  · exact congrArg (!·) h.contS
  · obtain ⟨hq, hmemOut⟩ := h.offered hthird
    obtain ⟨hoe, _⟩ := oe_of_accessCycle (s := s.slc) (by omega)
    simp only [TestTop.State.slcInputs, SramTop.State.slcInputs, hmemOut, Option.getD_some, hq, hsame.1]
    rcases hrange (by rw [hoe, Bool.true_or]) with ha | ha
    · rw [h.words.read ha]
    · rw [ha]
      rfl

include hsame h hlow hrange in
theorem Locked.words_step (hlow' : (SramTop.step i s).resetAh = false) :
    SameWords (TestTop.step j t).mem.memArray (SramTop.step i s).ram.mem := by
  have hreset : (t.resetAh || !j.run && !j.cont) = false := by
    rw [h.resetAh, hlow, hsame.2.1, hsame.2.2]
    exact hlow'
  have hexclusive : (s.slc.oe && s.slc.we) = false := ISDU.strobes_exclusive ..
  simp only [TestTop.step, TestTop.TestMemory.step, SramTop.step, SramTop.Ram.step, SramTop.State.we,
    SramTop.State.addr, SramTop.State.dataToSRAM, hreset, h.idle, h.slc, Bool.false_eq_true, if_false]
  cases hwe : s.slc.we with
  | true =>
      rw [hwe, Bool.and_true] at hexclusive
      rw [hexclusive]
      exact h.words.write (hrange (by rw [hwe, Bool.or_true])) _
  | false => cases s.slc.oe <;> exact h.words

include h in
theorem Locked.read_step (hlow : s.resetAh = false) (hread : 0 < ISDU.accessCycle s.slc.isdu) :
    (SramTop.step i s).ram = ⟨s.ram.mem, s.ram.mem (s.slc.addr.setWidth 10), s.ram.latch⟩ ∧
      (SramTop.step i s).slc.addr = s.slc.addr := by
  obtain ⟨hoe, hwe⟩ := oe_of_accessCycle hread
  refine ⟨?_, addr_step hlow hread⟩
  simp only [SramTop.step, SramTop.Ram.step, SramTop.State.we, SramTop.State.addr, h.idle, hoe, hwe,
    Bool.false_eq_true, if_false, if_true]

include hsame h hlow hrange in
theorem Locked.step (hlow' : (SramTop.step i s).resetAh = false) :
    Locked (TestTop.step j t) (SramTop.step i s) := by
  refine ⟨hsame.2.1, hsame.2.2, h.slc_step hsame hlow hrange, h.words_step hsame hlow hrange hlow',
    Refinement.weSelect_step i s hlow hlow' h.idle, fun hsecond => ?_, fun hthird => ?_⟩
  · obtain ⟨_, hfirst⟩ := Loading.accessCycle_step i hsecond
    obtain ⟨hram, haddr⟩ := h.read_step (i := i) hlow (by omega)
    rw [hram, haddr]
  · obtain ⟨_, hsecond⟩ := Loading.accessCycle_step i hthird
    obtain ⟨hram, haddr⟩ := h.read_step (i := i) hlow (by omega)
    obtain ⟨hoe, hwe⟩ := oe_of_accessCycle (s := s.slc) (by omega)
    have hreset : (t.resetAh || !j.run && !j.cont) = false := by
      rw [h.resetAh, hlow, hsame.2.1, hsame.2.2]
      exact hlow'
    rw [hram, haddr]
    refine ⟨h.latched hsecond, ?_⟩
    simp only [TestTop.step, TestTop.TestMemory.step, hreset, h.slc, hoe, hwe, Bool.not_false,
      Bool.and_self, Bool.false_eq_true, if_false, if_true]

end Edge

/-- The simulated machine and the one on the board go through the same states of
the processor for as long as no access leaves the words 0 to 254 and the mapped
address, and MDR never takes an undefined word. -/
theorem testtop_sramtop_lockstep (y : Nat → TestTop.Inputs) (x : Nat → SramTop.Inputs) (t : TestTop.State)
    (s : SramTop.State) (N : Nat)
    (hsame : ∀ n, (y n).sw = (x n).sw ∧ (y n).run = (x n).run ∧ (y n).cont = (x n).cont)
    (hbuttons : t.runS = s.runS ∧ t.contS = s.contS) (hslc : t.slc = s.slc)
    (hhalted : s.slc.isdu = .halted) (hwords : SameWords t.mem.memArray s.ram.mem)
    (hidle : s.weSelect = false) (hlow : ∀ n, n ≤ N → (SramTop.run x s n).resetAh = false)
    (hrange : ∀ n, n < N → InRange (TestTop.run y t n).slc ∨ InRange (SramTop.run x s n).slc) :
    ∀ n, n ≤ N →
      (TestTop.run y t n).slc = (SramTop.run x s n).slc ∧
      SameWords (TestTop.run y t n).mem.memArray (SramTop.run x s n).ram.mem ∧
      (((TestTop.run y t n).slc.control.ldMDR && (TestTop.run y t n).slc.oe) = true →
        (TestTop.run y t n).mem.memOut ≠ none) := by
  have hstart : Locked t s := by
    refine ⟨hbuttons.1, hbuttons.2, hslc, hwords, hidle, fun h => ?_, fun h => ?_⟩
    · rw [hhalted] at h
      exact Nat.noConfusion h
    · rw [hhalted] at h
      exact Nat.noConfusion h
  have hlocked (n : Nat) (hn : n ≤ N) : Locked (TestTop.run y t n) (SramTop.run x s n) := by
    induction n with
    | zero => exact hstart
    | succ n ih =>
        have h := ih (Nat.le_of_succ_le hn)
        have hin : InRange (SramTop.run x s n).slc := by
          rcases hrange n hn with hin | hin
          · rwa [← h.slc]
          · exact hin
        exact h.step (hsame n) (hlow n (Nat.le_of_succ_le hn)) hin (hlow (n + 1) hn)
  intro n hn
  have h := hlocked n hn
  refine ⟨h.slc, h.words, fun hloads => ?_⟩
  rw [h.slc] at hloads
  rw [(h.offered ((ISDU.accessCycle_eq_three_iff ..).mpr hloads)).2]
  exact Option.some_ne_none _

/-- The board with a program in its memory. Run is pressed in the first cycle. -/
def boardStart (mem : BitVec 10 → Word) : SramTop.State :=
  { SramTop.settled mem with slc := { (SramTop.settled mem).slc with isdu := .halted } }

def boardInputs (n : Nat) : SramTop.Inputs := { SramTop.handsOff 0 with run := decide (n ≠ 0) }

def simulationStart (memArray : BitVec 8 → Word) : TestTop.State :=
  ⟨true, true, (boardStart fun _ => 0).slc, ⟨memArray, none⟩⟩

def simulationInputs (n : Nat) : TestTop.Inputs := ⟨0, decide (n ≠ 0), true, ⟨0, 0⟩, 0xdead#16⟩

theorem testtop_sramtop_lockstep_addi :
    (TestTop.run simulationInputs (simulationStart fun _ => Assembler.opADDi Assembler.r1 Assembler.r0 5)
      9).slc.dp.regFile 1 = 5 := by
  have hlow : ∀ n, n ≤ 9 → (SramTop.run boardInputs
      (boardStart fun _ => Assembler.opADDi Assembler.r1 Assembler.r0 5) n).resetAh = false := by
    intro n _
    cases n <;> exact Bool.and_false _
  have hrange : ∀ n, n < 9 → InRange (SramTop.run boardInputs
      (boardStart fun _ => Assembler.opADDi Assembler.r1 Assembler.r0 5) n).slc := by
    decide +kernel
  obtain ⟨hslc, _⟩ := testtop_sramtop_lockstep simulationInputs boardInputs
    (simulationStart fun _ => Assembler.opADDi Assembler.r1 Assembler.r0 5)
    (boardStart fun _ => Assembler.opADDi Assembler.r1 Assembler.r0 5) 9
    (fun _ => ⟨rfl, rfl, rfl⟩) ⟨rfl, rfl⟩ rfl rfl (fun _ _ => rfl) rfl hlow
    (fun n hn => .inr (hrange n hn)) 9 le_rfl
  rw [hslc]
  decide +kernel

end ECE385.SLC3.Lockstep
