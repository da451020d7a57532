import ECE385.SLC3.Encoding
import ECE385.SLC3.Launch

namespace ECE385.SLC3.TestPrograms

open Clocked.Machine (run run_zero run_add run_succ FirstReturn)
open Clocked.Progress (run_passes)
open Execution
open Isa (Instr Reg Word)
open Launch (Launched Pauses launched_ready ready switches)
open Multiplication (pressing)
open Refinement (arch)
open Stepping
open SramTop (State Inputs AtS18)

section Xor

def xorCode : List Instr :=
  [ .and 0 0 (.imm 0), .pse, .ldr 1 0 (-1), .pse, .ldr 2 0 (-1), .not 3 1, .and 3 3 (.reg 2), .not 3 3, .not 4 2,
    .and 4 4 (.reg 1), .not 4 4, .and 3 3 (.reg 4), .not 3 3, .str 3 0 (-1), .pse, .br 0b111 (-15), .br 0 0, .br 0 0,
    .br 0 0, .br 0 0, .br 0 0, .br 0 0 ]

theorem decode_xorTest : Instantiateram.xorTest.map Isa.decode = xorCode := by decide

structure XorHome (a : Isa.State) : Prop where
  pc : a.pc = 21
  zero : a.reg 0 = 0
  image : Image Instantiateram.xorTest 20 a.mem

/-- The exclusive or out of conjunctions and complements only. -/
theorem xor_eq (u v : Word) : ~~~(~~~(~~~u &&& v) &&& ~~~(~~~v &&& u)) = u ^^^ v := by
  ext i hi
  simp only [BitVec.getElem_not, BitVec.getElem_and, BitVec.getElem_xor]
  cases u[i] <;> cases v[i] <;> rfl

/-- A pass reads the switches twice, pauses with their exclusive or and starts again. -/
structure XorPass (y : Nat → Switches) (a : Isa.State) : Prop where
  first : (run next y a 1).pc = 22
  second : (run next y a 3).pc = 24
  pc : (run next y a 13).pc = 34
  hex : (run next y a 13).hex = ((y 1).2 ^^^ (y 3).2).setWidth 16
  paused : ∀ sw, Isa.decode ((run next y a 13).fetch sw) = .pse
  home : XorHome (run next y a 15)

theorem display_outside : ¬(20 ≤ (1023 : BitVec 10).toNat ∧ (1023 : BitVec 10).toNat < 20 + 22) := by decide

theorem xor_pass {a : Isa.State} (y : Nat → Switches) (h : XorHome a) : XorPass y a := by
  obtain ⟨reg, pc, nzp, mem, hex⟩ := a
  obtain ⟨hpc, hzero, himage⟩ := h
  obtain rfl : pc = line 20 1 := hpc
  have hlength : 20 + xorCode.length ≤ 1024 := by decide
  have hcode : Code xorCode 20 mem := decode_xorTest ▸ himage.code
  have h1 := run_next (run_zero next y ⟨reg, line 20 1, nzp, mem, hex⟩) (next_pause hcode hlength (y 0) rfl)
  have h2 := run_next h1 (next_switches hcode hlength (y 1) rfl hzero)
  have h3 := run_next h2 (next_pause hcode hlength (y 2) rfl)
  have h4 := run_next h3 (next_switches hcode hlength (y 3) rfl hzero)
  generalize hu : (y 1).2.setWidth 16 = u at h4
  generalize hv : (y 3).2.setWidth 16 = v at h4
  have h5 := run_next h4 (next_compute hcode hlength (y 4) (v := ~~~u) rfl rfl rfl)
  have h6 := run_next h5 (next_compute hcode hlength (y 5) (v := ~~~u &&& v) rfl rfl rfl)
  have h7 := run_next h6 (next_compute hcode hlength (y 6) (v := ~~~(~~~u &&& v)) rfl rfl rfl)
  have h8 := run_next h7 (next_compute hcode hlength (y 7) (v := ~~~v) rfl rfl rfl)
  have h9 := run_next h8 (next_compute hcode hlength (y 8) (v := ~~~v &&& u) rfl rfl rfl)
  have h10 := run_next h9 (next_compute hcode hlength (y 9) (v := ~~~(~~~v &&& u)) rfl rfl rfl)
  have h11 := run_next h10
    (next_compute hcode hlength (y 10) (v := ~~~(~~~u &&& v) &&& ~~~(~~~v &&& u)) rfl rfl rfl)
  have h12 := run_next h11 (next_compute hcode hlength (y 11) (v := u ^^^ v) rfl rfl (xor_eq u v))
  have h13 := run_next h12 (next_show hcode hlength (y 12) rfl hzero rfl)
  have himage' := image_update himage (by decide) display_outside (u ^^^ v)
  have hcode' : Code xorCode 20 (Function.update mem 1023 (u ^^^ v)) := decode_xorTest ▸ himage'.code
  have h14 := run_next h13 (next_pause hcode' hlength (y 13) rfl)
  have h15 := run_next h14 (next_branch hcode' hlength (y 14) (l := 1) rfl (conditionCodes_taken _) rfl)
  refine ⟨by rw [h1]; rfl, by rw [h3]; rfl, by rw [h13]; rfl, ?_, fun sw => ?_, ?_⟩
  · rw [BitVec.setWidth_xor, hu, hv]
    exact congrArg Isa.State.hex h13
  · rw [h13]
    exact fetch_line hcode' hlength rfl sw
  · rw [h15]
    exact ⟨rfl, hzero, himage'⟩

theorem xor_start {a : Isa.State} (y : Nat → Switches) (hpc : a.pc = 20) (h : Image Instantiateram.xorTest 20 a.mem) :
    XorHome (run next y a 1) := by
  obtain ⟨reg, pc, nzp, mem, hex⟩ := a
  obtain rfl : pc = line 20 0 := hpc
  have hcode : Code xorCode 20 mem := decode_xorTest ▸ h.code
  have hclear : reg 0 &&& 0 = 0 := BitVec.and_zero
  have h1 := run_next (run_zero next y ⟨reg, line 20 0, nzp, mem, hex⟩)
    (next_compute hcode (by decide) (y 0) rfl rfl hclear)
  rw [h1]
  exact ⟨rfl, rfl, h⟩

theorem xor_passes {a : Isa.State} (y : Nat → Switches) (hpc : a.pc = 20) (h : Image Instantiateram.xorTest 20 a.mem)
    (j : Nat) : XorPass (fun k => y (15 * j + 1 + k)) (run next y a (15 * j + 1)) := by
  refine xor_pass _ ?_
  rw [Nat.add_comm, run_add]
  exact run_passes (I := fun _ => XorHome) _ (xor_start y hpc h) (fun _ _ z _ hhome => (xor_pass z hhome).home) le_rfl

/-- Every pass of the test shows the exclusive or of the two settings that it has
read, from its third checkpoint to the end of the pause. -/
theorem xor_test_shows (x : Nat → Inputs) (s : State) (T : Nat → Nat) (count : Nat) (h : Launched x s T count)
    (hpc : (arch (SramTop.run x s (T 0))).pc = 20)
    (himage : Image Instantiateram.xorTest 20 (arch (SramTop.run x s (T 0))).mem) (j : Nat) (hj : 15 * j + 14 ≤ count) :
    (arch (SramTop.run x s (T (15 * j + 2)))).pc = 22 ∧ (arch (SramTop.run x s (T (15 * j + 4)))).pc = 24 ∧
      Pauses x s T (15 * j + 14) 34
        (((x (T (15 * j + 2) + 9)).sw ^^^ (x (T (15 * j + 4) + 9)).sw).setWidth 16) := by
  have hpass := xor_passes (switches x T) hpc himage j
  refine ⟨?_, ?_, ?_⟩
  · exact (congrArg Isa.State.pc (h.arch_after (p := 15 * j + 1) (k := 1) (by omega))).trans hpass.first
  · exact (congrArg Isa.State.pc (h.arch_after (p := 15 * j + 1) (k := 3) (by omega))).trans hpass.second
  · exact h.pauses hj (h.arch_after (p := 15 * j + 1) (k := 13) hj) hpass.pc hpass.hex hpass.paused

/-- The switches are at 5 when they are read first, and then at 9. -/
theorem xor_test_shows_twelve : ∃ N n,
    (SramTop.run (fun k => pressing (if k < N then 5 else 9) k) (ready 20) n).slc.hexData = 12 := by
  obtain ⟨T, hT, hlaunched⟩ := launched_ready (fun _ => 5) 20
  generalize hN : T 2 + 10 = N
  obtain ⟨T', hT', hlaunched'⟩ := launched_ready (fun k => if k < N then 5 else 9) 20
  generalize hx : (fun k => pressing (if k < N then 5 else 9) k) = x at hlaunched'
  have hsame : T' 2 = T 2 := by
    refine (hlaunched 14).toArrivals.agree (hlaunched' 14).toArrivals (hT'.trans hT.symm) (N := T 2)
      (fun n hn => Clocked.Machine.run_congr fun m hm => ?_) (by decide) le_rfl
    rw [← hx]
    dsimp only
    rw [if_pos (by omega)]
  have hlater : T' 2 < T' 4 := (hlaunched' 14).toArrivals.lt (by decide) (by decide)
  have hstart : SramTop.run x (ready 20) (T' 0) = ready 20 := by
    rw [hT']
    rfl
  have himage : Image Instantiateram.xorTest 20 (ready 20).ram.mem := .of_eq (by decide +kernel)
  obtain ⟨-, -, -, hshown⟩ := xor_test_shows x (ready 20) T' 14 (hlaunched' 14) (by rw [hstart]; rfl)
    (by rw [hstart]; exact himage) 0 le_rfl
  have hfirst : (x (T' 2 + 9)).sw = 5 := by
    rw [← hx]
    exact if_pos (by omega)
  have hsecond : (x (T' 4 + 9)).sw = 9 := by
    rw [← hx]
    exact if_neg (by omega)
  refine ⟨N, T' 14, ?_⟩
  rw [hx]
  refine (hshown _ le_rfl fun m hm hlt => absurd hm (Nat.lt_asymm hlt)).trans ?_
  rw [hfirst, hsecond]
  rfl

end Xor

section Checkpoint

/-- The third input and output test. It changes the instruction of its checkpoint. -/
def checkpointCode (checkpoint : Instr) : List Instr :=
  [ .pse, .jsr 7 0, .ldr 2 7 3, .ldr 1 0 (-1), .str 1 0 (-1), checkpoint, .add 2 2 (.imm 1), .str 2 7 3,
    .br 0b111 (-6) ]

def checkpointWords (w : Word) : List Word := Instantiateram.ioTest3.set 5 w

theorem decode_ioTest3 (w : Word) : (checkpointWords w).map Isa.decode = checkpointCode (Isa.decode w) := by
  have hcode : Instantiateram.ioTest3.map Isa.decode = checkpointCode .pse := by decide
  rw [checkpointWords, List.map_set, hcode]
  rfl

/-- The word of the checkpoint in pass `j`. -/
def checkpoint (j : Nat) : Word := BitVec.ofNat 16 (0xdc02 + j)

structure CheckpointHome (j : Nat) (a : Isa.State) : Prop where
  pc : a.pc = 14
  zero : a.reg 0 = 0
  word : a.reg 2 = checkpoint j
  link : a.reg 7 = 13
  image : Image (checkpointWords (checkpoint j)) 11 a.mem

theorem checkpoint_opcode (j : Nat) :
    ((checkpoint j).extractLsb' 12 4).toNat = (0xdc02 + j) % 2 ^ 16 / 2 ^ 12 := by
  rw [BitVec.extractLsb'_toNat, checkpoint, BitVec.toNat_ofNat, Nat.shiftRight_eq_div_pow]
  exact Nat.mod_eq_of_lt (by omega)

theorem checkpoint_condition {j : Nat} (hlow : 9214 ≤ j) (hhigh : j < 9726) : (checkpoint j).extractLsb' 9 3 = 0 := by
  apply BitVec.eq_of_toNat_eq
  rw [BitVec.extractLsb'_toNat, checkpoint, BitVec.toNat_ofNat, Nat.shiftRight_eq_div_pow]
  have hzero : (0 : BitVec 3).toNat = 0 := rfl
  omega

/-- The checkpoint counts up through the opcode of PSE, two unused ones and that
of a branch on no condition, all of which leave the program going. -/
theorem decode_checkpoint {j : Nat} (hj : j < 9726) :
    (∀ sw a, (Isa.decode (checkpoint j)).exec sw a = a) ∧ (Isa.decode (checkpoint j) = .pse ↔ j < 1022) := by
  have hopcode := checkpoint_opcode j
  rcases Nat.lt_or_ge j 1022 with hpse | hge
  · have h : (checkpoint j).extractLsb' 12 4 = Assembler.opcodePSE := BitVec.eq_of_toNat_eq (hopcode.trans (by
      have hvalue : Assembler.opcodePSE.toNat = 13 := rfl
      omega))
    rw [Encoding.decode_pse h]
    exact ⟨fun _ _ => rfl, by simpa using hpse⟩
  rcases Nat.lt_or_ge j 9214 with hnop | hge'
  · have hunused : ∀ op ∈ Encoding.opcodes, op.toNat < 14 := by decide
    have h : (checkpoint j).extractLsb' 12 4 ∉ Encoding.opcodes := fun hmem => absurd (hunused _ hmem) (by omega)
    rw [Encoding.decode_nop h]
    exact ⟨fun _ _ => rfl, by simpa using hge⟩
  · have h : (checkpoint j).extractLsb' 12 4 = Assembler.opcodeBR := BitVec.eq_of_toNat_eq (hopcode.trans (by
      have hvalue : Assembler.opcodeBR.toNat = 0 := rfl
      omega))
    rw [Encoding.decode_br h, checkpoint_condition hge' hj]
    exact ⟨fun _ _ => if_neg (not_not.mpr BitVec.zero_and), by simpa using hge⟩

theorem checkpoint_succ (j : Nat) : checkpoint j + 1 = checkpoint (j + 1) := (BitVec.ofNat_add (0xdc02 + j) 1).symm

theorem checkpoint_outside : ¬(11 ≤ (1023 : BitVec 10).toNat ∧ (1023 : BitVec 10).toNat < 11 + 9) := by decide

/-- A pass shows the switches and stops at its own checkpoint, if that is still a pause. -/
structure CheckpointPass (j : Nat) (y : Nat → Switches) (a : Isa.State) : Prop where
  pc : (run next y a 2).pc = 16
  hex : (run next y a 2).hex = (y 0).2.setWidth 16
  fetch : ∀ sw, (run next y a 2).fetch sw = checkpoint j
  pauses : ∀ l, l < 6 → ∀ sw, Isa.decode ((run next y a l).fetch sw) = .pse → l = 2
  home : CheckpointHome (j + 1) (run next y a 6)

theorem checkpoint_pass {j : Nat} (hj : j < 9726) {a : Isa.State} (y : Nat → Switches) (h : CheckpointHome j a) :
    CheckpointPass j y a := by
  obtain ⟨reg, pc, nzp, mem, hex⟩ := a
  obtain ⟨hpc, hzero, hword, hlink, himage⟩ := h
  obtain rfl : pc = line 11 3 := hpc
  replace hword : reg 2 = checkpoint j := hword
  replace hlink : reg 7 = 13 := hlink
  have hlength (i : Instr) : 11 + (checkpointCode i).length ≤ 1024 := by
    show 20 ≤ 1024
    decide
  have hcode : Code (checkpointCode (Isa.decode (checkpoint j))) 11 mem := decode_ioTest3 _ ▸ himage.code
  have h1 := run_next (run_zero next y ⟨reg, line 11 3, nzp, mem, hex⟩)
    (next_switches hcode (hlength _) (y 0) rfl hzero)
  generalize hv : (y 0).2.setWidth 16 = v at h1
  have h2 := run_next h1 (next_show hcode (hlength _) (y 1) rfl hzero rfl)
  have himage' : Image (checkpointWords (checkpoint j)) 11 (Function.update mem 1023 v) :=
    image_update himage (hlength .nop) checkpoint_outside v
  have hcode' : Code (checkpointCode (Isa.decode (checkpoint j))) 11 (Function.update mem 1023 v) :=
    decode_ioTest3 _ ▸ himage'.code
  have hcheckpoint : next (y 2) ⟨Function.update reg 1 v, line 11 5, Isa.conditionCodes v, Function.update mem 1023 v, v⟩ =
      ⟨Function.update reg 1 v, line 11 6, Isa.conditionCodes v, Function.update mem 1023 v, v⟩ := by
    rw [next_line hcode' (hlength _) rfl, (decode_checkpoint hj).1]
  have h3 := run_next h2 hcheckpoint
  have hinc : reg 2 + 1 = checkpoint (j + 1) := by rw [hword, checkpoint_succ]
  have h4 := run_next h3 (next_compute hcode' (hlength _) (y 3) rfl rfl hinc)
  have haddress : reg 7 + 3 = 16 := by
    rw [hlink]
    rfl
  have h5 := run_next h4 (next_store hcode' (hlength _) (y 4) rfl haddress (by decide) rfl)
  have himage'' : Image (checkpointWords (checkpoint (j + 1))) 11 _ :=
    image_set himage' (by decide) (by decide) (checkpoint (j + 1))
  have hcode'' := himage''.code
  rw [decode_ioTest3] at hcode''
  have h6 := run_next h5 (next_branch hcode'' (hlength _) (y 5) (l := 3) rfl (conditionCodes_taken _) rfl)
  refine ⟨by rw [h2]; rfl, (congrArg Isa.State.hex h2).trans hv.symm, fun sw => ?_, fun l hl sw hpse => ?_, ?_⟩
  · rw [h2]
    exact himage' 5 _ rfl
  · by_contra hne
    obtain rfl | rfl | rfl | rfl | rfl : l = 0 ∨ l = 1 ∨ l = 3 ∨ l = 4 ∨ l = 5 := by omega
    · exact Instr.noConfusion ((fetch_line hcode (hlength _) (k := 3) rfl sw).symm.trans hpse)
    · rw [h1] at hpse
      exact Instr.noConfusion ((fetch_line hcode (hlength _) (k := 4) rfl sw).symm.trans hpse)
    · rw [h3] at hpse
      exact Instr.noConfusion ((fetch_line hcode' (hlength _) (k := 6) rfl sw).symm.trans hpse)
    · rw [h4] at hpse
      exact Instr.noConfusion ((fetch_line hcode' (hlength _) (k := 7) rfl sw).symm.trans hpse)
    · rw [h5] at hpse
      exact Instr.noConfusion ((fetch_line hcode'' (hlength _) (k := 8) rfl sw).symm.trans hpse)
  · rw [h6]
    exact ⟨rfl, hzero, rfl, hlink, himage''⟩

theorem checkpoint_start {a : Isa.State} (y : Nat → Switches) (hpc : a.pc = 11) (hzero : a.reg 0 = 0)
    (h : Image Instantiateram.ioTest3 11 a.mem) : CheckpointHome 0 (run next y a 3) := by
  obtain ⟨reg, pc, nzp, mem, hex⟩ := a
  obtain rfl : pc = line 11 0 := hpc
  have hlength : 11 + (checkpointCode .pse).length ≤ 1024 := by decide
  have hcode : Code (checkpointCode .pse) 11 mem := by
    have hpse : Isa.decode (checkpoint 0) = .pse := by decide
    rw [← hpse, ← decode_ioTest3]
    exact h.code
  have hword : mem 16 = checkpoint 0 := h 5 _ rfl
  have h1 := run_next (run_zero next y ⟨reg, line 11 0, nzp, mem, hex⟩) (next_pause hcode hlength (y 0) rfl)
  have h2 := run_next h1 (next_call hcode hlength (y 1) rfl (BitVec.add_zero _))
  have haddress : line 11 2 + 3 = 16 := rfl
  have h3 := run_next h2 (next_load hcode hlength (y 2) rfl haddress (by decide) hword)
  rw [h3]
  exact ⟨rfl, hzero, rfl, rfl, h⟩

theorem checkpoint_passes {a : Isa.State} (y : Nat → Switches) (hpc : a.pc = 11) (hzero : a.reg 0 = 0)
    (h : Image Instantiateram.ioTest3 11 a.mem) {j : Nat} (hj : j < 9726) :
    CheckpointPass j (fun i => y (6 * j + 3 + i)) (run next y a (6 * j + 3)) := by
  refine checkpoint_pass hj _ ?_
  rw [Nat.add_comm, run_add]
  exact run_passes (N := 9726) _ (checkpoint_start _ hpc hzero h)
    (fun k t z hk ht => (checkpoint_pass hk z ht).home) hj.le

/-- The third input and output test shows the switches of every pass, and its
checkpoint counts the passes. It stops there in the first 1022 of them, and then
goes round without a stop until the word has become a branch. -/
theorem checkpoint_counts (x : Nat → Inputs) (s : State) (T : Nat → Nat) (count : Nat) (h : Launched x s T count)
    (hpc : (arch (SramTop.run x s (T 0))).pc = 11) (hzero : (arch (SramTop.run x s (T 0))).reg 0 = 0)
    (himage : Image Instantiateram.ioTest3 11 (arch (SramTop.run x s (T 0))).mem) :
    (∀ j, j < 9726 → 6 * j + 5 ≤ count →
      let a := arch (SramTop.run x s (T (6 * j + 5)))
      a.pc = 16 ∧ a.hex = (x (T (6 * j + 3) + 9)).sw.setWidth 16 ∧
        (∀ sw, a.fetch sw = BitVec.ofNat 16 (0xdc02 + j)) ∧ (∀ sw, Isa.decode (a.fetch sw) = .pse ↔ j < 1022)) ∧
    ∀ k, 6 * 1022 + 3 ≤ k → k < 6 * 9726 + 3 → k ≤ count →
      ∃ d, d ≤ 11 ∧ FirstReturn SramTop.step (fun n => x (T k + n)) (SramTop.run x s (T k)) AtS18 d ∧
        (k < count → T (k + 1) = T k + d) := by
  refine ⟨fun j hj hcount => ?_, fun k hlow hhigh hk => h.goes_on hk fun sw hpse => ?_⟩
  · have hpass := checkpoint_passes (switches x T) hpc hzero himage hj
    have hat : arch (SramTop.run x s (T (6 * j + 5))) = _ := h.arch_after (p := 6 * j + 3) (k := 2) hcount
    simp only [hat]
    refine ⟨hpass.pc, hpass.hex, hpass.fetch, fun sw => ?_⟩
    rw [hpass.fetch]
    exact (decode_checkpoint hj).2
  · -- instruction `l` of pass `j`
    obtain ⟨j, l, hl, rfl⟩ : ∃ j l, l < 6 ∧ k = 6 * j + 3 + l :=
      ⟨(k - 3) / 6, (k - 3) % 6, Nat.mod_lt _ (by decide), by omega⟩
    have hj : j < 9726 := by omega
    have hpass := checkpoint_passes (switches x T) hpc hzero himage hj
    rw [h.arch_after hk] at hpse
    obtain rfl := hpass.pauses l hl sw hpse
    rw [hpass.fetch, (decode_checkpoint hj).2] at hpse
    omega

/-- Pass 1021 is the last one with a stop. -/
theorem checkpoint_counts_last :
    ∃ n m, (arch (SramTop.run (pressing 7) (ready 11) n)).fetch 0 = 0xdfff#16 ∧
      (arch (SramTop.run (pressing 7) (ready 11) m)).fetch 0 = 0xe000#16 ∧
      ∃ d, d ≤ 11 ∧ AtS18 (SramTop.run (pressing 7) (ready 11) (m + d)) := by
  obtain ⟨T, hT, hlaunched⟩ := launched_ready (fun _ => 7) 11
  have himage : Image Instantiateram.ioTest3 11 (ready 11).ram.mem := .of_eq (by decide +kernel)
  have hstart : SramTop.run (pressing 7) (ready 11) (T 0) = ready 11 := by
    rw [hT]
    rfl
  obtain ⟨hcounts, hgoes⟩ := checkpoint_counts (pressing 7) (ready 11) T 6138 (hlaunched 6138) (by rw [hstart]; rfl)
    (by rw [hstart]; rfl) (by rw [hstart]; exact himage)
  obtain ⟨d, hd, -, hT'⟩ := hgoes 6137 (by decide) (by decide) (by decide)
  refine ⟨_, _, (hcounts 1021 (by decide) (by decide)).2.2.1 0, (hcounts 1022 (by decide) (by decide)).2.2.1 0, d, hd, ?_⟩
  have hat := (hlaunched 6138).toArrivals.atS18 (k := 6137 + 1) le_rfl
  rwa [hT' (by decide)] at hat

end Checkpoint

end ECE385.SLC3.TestPrograms
