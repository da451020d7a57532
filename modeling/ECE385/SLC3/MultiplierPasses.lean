import ECE385.SLC3.MultiplierProgram

namespace ECE385.SLC3.MultiplierPasses

open Clocked.Machine (run run_zero run_add run_succ)
open Execution
open Isa (Instr Reg Word)
open MultiplierProgram (InRound loop mapped_address multiply_executes partialProduct)
open Program (Arrivals)
open Refinement (arch)
open SramTop (State Inputs AtS18)

/-- Lines 49 to 57: the mask is loaded once, the operands in every pass. -/
def opening : List Instr :=
  [ .and 0 0 (.imm 0), .jsr 7 0, .ldr 3 7 22, .and 4 4 (.imm 0), .and 5 5 (.imm 0), .pse, .ldr 1 0 (-1),
    .pse, .ldr 2 0 (-1) ]

/-- Lines 71 to 73. -/
def closing : List Instr := [ .pse, .br 0b111 (-21), .br 0 0x80 ]

def code : List Instr := opening ++ loop ++ closing

theorem decode_multiplier : Instantiateram.multiplier.map Isa.decode = code := by decide

structure Home (a : Isa.State) : Prop where
  pc : a.pc = 52
  zero : a.reg 0 = 0
  mask : a.reg 3 = 0x80#16
  image : Image Instantiateram.multiplier 49 a.mem

section Image

variable {mem : BitVec 10 → Word} (h : Image Instantiateram.multiplier 49 mem)

include h

theorem program_code : Code code 49 mem := decode_multiplier ▸ h.code

theorem loop_code : Code loop 58 mem := (program_code h).left.right

theorem image_display (v : Word) : Image Instantiateram.multiplier 49 (Function.update mem 1023 v) := by
  intro k w hw
  have hk : k < 25 := (List.getElem?_eq_some_iff.mp hw).1
  have hne : BitVec.ofNat 10 (49 + k) ≠ 1023 := by
    intro heq
    have hvalue := congrArg BitVec.toNat heq
    rw [BitVec.toNat_ofNat, Nat.mod_eq_of_lt (by omega)] at hvalue
    have hlast : (1023 : BitVec 10).toNat = 1023 := rfl
    omega
  rw [Function.update_of_ne hne]
  exact h k w hw

end Image

/-- The switches' signed low byte times the other switches. -/
def product (sw sw' : BitVec 10) : Word := BitVec.ofInt 16 ((sw.setWidth 8).toInt * sw'.toNat)

theorem product_eq (sw sw' : BitVec 10) :
    partialProduct ((sw.setWidth 16).setWidth 8) (sw'.setWidth 16) 8 = product sw sw' := by
  rw [partialProduct, MultiplierProgram.weight_all, product, BitVec.setWidth_setWidth_of_le _ (by decide),
    BitVec.toNat_setWidth_of_le (by decide)]

theorem code_length : 49 + code.length ≤ 1024 := by decide

section Steps

variable {k : Nat} {reg : Reg → Word} {nzp : BitVec 3} {mem : BitVec 10 → Word} {hex : Word} {r : Reg}
  (hcode : Code code 49 mem) (y : Switches)

include hcode

theorem next_clear (hi : code[k]? = some (.and r r (.imm 0))) :
    next y ⟨reg, line 49 k, nzp, mem, hex⟩ =
      ⟨Function.update reg r 0, line 49 (k + 1), 0b010#3, mem, hex⟩ := by
  have hzero : reg r &&& 0 = 0 := BitVec.and_zero
  rw [next_line hcode code_length hi, Instr.exec, Isa.Operand.value, hzero]
  rfl

theorem next_pause (hi : code[k]? = some .pse) :
    next y ⟨reg, line 49 k, nzp, mem, hex⟩ = ⟨reg, line 49 (k + 1), nzp, mem, hex⟩ :=
  next_line hcode code_length hi y

theorem next_operand (hi : code[k]? = some (.ldr r 0 (-1))) (hzero : reg 0 = 0) :
    next y ⟨reg, line 49 k, nzp, mem, hex⟩ =
      ⟨Function.update reg r (y.2.setWidth 16), line 49 (k + 1), Isa.conditionCodes (y.2.setWidth 16), mem,
        hex⟩ := by
  rw [next_line hcode code_length hi, Instr.exec, mapped_address hzero, Isa.State.read, if_pos rfl]
  rfl

theorem next_link (hi : code[k]? = some (.jsr r 0)) :
    next y ⟨reg, line 49 k, nzp, mem, hex⟩ =
      ⟨Function.update reg r (line 49 (k + 1)), line 49 (k + 1), nzp, mem, hex⟩ := by
  have hstay : line 49 (k + 1) + 0 = line 49 (k + 1) := BitVec.add_zero _
  rw [next_line hcode code_length hi, Instr.exec, hstay]
  rfl

theorem next_mask (hi : code[k]? = some (.ldr r 7 22)) (hlink : reg 7 = 51) :
    next y ⟨reg, line 49 k, nzp, mem, hex⟩ =
      ⟨Function.update reg r (mem 73), line 49 (k + 1), Isa.conditionCodes (mem 73), mem, hex⟩ := by
  have haddress : reg 7 + 22 = 73 := by
    rw [hlink]
    rfl
  rw [next_line hcode code_length hi, Instr.exec, haddress]
  rfl

theorem next_restart (hi : code[k]? = some (.br 0b111 (-21))) :
    next y ⟨reg, line 49 k, 0b010#3, mem, hex⟩ = ⟨reg, line 49 (k + 1) + (-21), 0b010#3, mem, hex⟩ := by
  have htaken : 0b111#3 &&& 0b010#3 ≠ 0 := by decide
  rw [next_line hcode code_length hi]
  exact if_pos htaken

end Steps

/-- The processor is at line `k` of the program, which is still in memory. -/
structure At (k : Nat) (b : Isa.State) : Prop where
  pc : b.pc = line 49 k
  image : Image Instantiateram.multiplier 49 b.mem

section Runs

variable {a : Isa.State} (y : Nat → Switches)

theorem At.executes {k l : Nat} {i : Instr} {b : Isa.State} (h : At k b) (hi : code[k]? = some i) (hpse : i ≠ .pse)
    (hpc : ∀ sw, (i.exec sw { b with pc := line 49 (k + 1) }).pc = line 49 l) :
    Executes code 49 (fun c => c.pc = line 49 l) 1 b := by
  obtain ⟨reg, pc, nzp, mem, hex⟩ := b
  obtain rfl : pc = line 49 k := h.pc
  exact executes_step (program_code h.image) code_length hi hpse hpc

theorem At.fetch_pause {k : Nat} {b : Isa.State} (h : At k b) (hi : code[k]? = some .pse) (sw : BitVec 10) :
    Isa.decode (b.fetch sw) = .pse := by
  obtain ⟨reg, pc, nzp, mem, hex⟩ := b
  obtain rfl : pc = line 49 k := h.pc
  exact fetch_line (program_code h.image) code_length hi sw

theorem At.next_pause {k : Nat} {b : Isa.State} (h : At k b) (hi : code[k]? = some .pse) (y : Switches) :
    (next y b).pc = line 49 (k + 1) := by
  obtain ⟨reg, pc, nzp, mem, hex⟩ := b
  obtain rfl : pc = line 49 k := h.pc
  exact congrArg Isa.State.pc (MultiplierPasses.next_pause (program_code h.image) y hi)

theorem run_next {k : Nat} {b c : Isa.State} (h : run next y a k = b) (hnext : next (y k) b = c) :
    run next y a (k + 1) = c := by
  rw [run_succ, h, hnext]

theorem start_run (h : At 0 a) : (∀ l, l < 3 → At l (run next y a l)) ∧ Home (run next y a 3) := by
  obtain ⟨reg, pc, nzp, mem, hex⟩ := a
  obtain ⟨hpc, himage⟩ := h
  obtain rfl : pc = line 49 0 := hpc
  have hcode : Code code 49 mem := program_code himage
  have hmask : mem 73 = 0x80#16 := himage 24 _ rfl
  have h1 := run_next (k := 0) y (run_zero next y ⟨reg, line 49 0, nzp, mem, hex⟩) (next_clear hcode (y 0) rfl)
  have h2 := run_next y h1 (next_link hcode (y 1) rfl)
  have h3 := run_next y h2 (next_mask hcode (y 2) rfl rfl)
  rw [hmask] at h3
  refine ⟨fun l hl => ?_, ?_⟩
  · match l, hl with
    | 0, _ => exact ⟨rfl, himage⟩
    | 1, _ => exact h1 ▸ ⟨rfl, himage⟩
    | 2, _ => exact h2 ▸ ⟨rfl, himage⟩
  · rw [h3]
    exact ⟨rfl, rfl, rfl, himage⟩

/-- Up to its second load a pass clears the counter and the total and reads the
first operand. -/
theorem opening_run (h : Home a) :
    (∀ l, l < 6 → At (3 + l) (run next y a l)) ∧
      ∃ reg nzp, run next y a 5 = ⟨reg, line 49 8, nzp, a.mem, a.hex⟩ ∧
        ∀ v, InRound ((y 3).2.setWidth 16) v 0 (Function.update reg 2 v) := by
  obtain ⟨reg, pc, nzp, mem, hex⟩ := a
  obtain ⟨hpc, hzero, hmask, himage⟩ := h
  obtain rfl : pc = line 49 3 := hpc
  have hcode : Code code 49 mem := program_code himage
  have h1 := run_next (k := 0) y (run_zero next y ⟨reg, line 49 3, nzp, mem, hex⟩) (next_clear hcode (y 0) rfl)
  have h2 := run_next y h1 (next_clear hcode (y 1) rfl)
  have h3 := run_next y h2 (next_pause hcode (y 2) rfl)
  have h4 := run_next y h3 (next_operand hcode (y 3) rfl hzero)
  have h5 := run_next y h4 (next_pause hcode (y 4) rfl)
  refine ⟨fun l hl => ?_, _, _, h5, fun v => ?_⟩
  · match l, hl with
    | 0, _ => exact ⟨rfl, himage⟩
    | 1, _ => exact h1 ▸ ⟨rfl, himage⟩
    | 2, _ => exact h2 ▸ ⟨rfl, himage⟩
    | 3, _ => exact h3 ▸ ⟨rfl, himage⟩
    | 4, _ => exact h4 ▸ ⟨rfl, himage⟩
    | 5, _ => exact h5 ▸ ⟨rfl, himage⟩
  · exact ⟨hzero, (BitVec.shiftLeft_zero _).symm, rfl, hmask, rfl, (MultiplierProgram.partialProduct_zero ..).symm⟩

/-- Step `l` of a pass with `m` instructions in the loop is at line `k`. -/
def Scheduled (m l k : Nat) : Prop :=
  l < 6 ∧ k = 3 + l ∨ (6 ≤ l ∧ l < 6 + m) ∧ 9 ≤ k ∧ k < 22 ∨ l = 6 + m ∧ k = 22 ∨ l = 7 + m ∧ k = 23

structure Pass (a : Isa.State) (m : Nat) : Prop where
  place : ∀ l, l < 8 + m → ∃ k, Scheduled m l k ∧ (run next y a l).pc = line 49 k ∧
    (k < 9 ∨ 22 ≤ k → Image Instantiateram.multiplier 49 (run next y a l).mem)
  hex : (run next y a (6 + m)).hex = product (y 3).2 (y 5).2
  nzp : (run next y a (7 + m)).nzp = 0b010#3
  home : Home (run next y a (8 + m))

theorem finish_executes (h : Home a) : Executes code 49 (fun b => b.pc = 71) 98 (run next y a 5) := by
  obtain ⟨_, reg, nzp, hrun, hround⟩ := opening_run y h
  have haddress : reg 0 + (-1) = 0xffff#16 := mapped_address (hround 0).zero
  rw [hrun]
  refine executes_step (program_code h.image) code_length (k := 8) rfl Instr.noConfusion fun sw => ?_
  rw [Instr.exec, haddress, Isa.State.read, if_pos rfl]
  exact @Executes.embed opening loop closing 49 97 _ _
    (multiply_executes (loop_code h.image) (hround _) fun reg' hround' => rfl)

theorem loop_run (h : Home a) :
    ∃ m reg, (∀ l, l < m → ∃ k, k < 13 ∧ (run next y a (6 + l)).pc = line 58 k) ∧ reg 0 = 0 ∧
      reg 3 = 0x80#16 ∧ run next y a (6 + m) = ⟨reg, line 49 22, 0b010#3,
        Function.update a.mem 1023 (product (y 3).2 (y 5).2), product (y 3).2 (y 5).2⟩ := by
  obtain ⟨_, reg, nzp, hrun, hround⟩ := opening_run y h
  have hzero : reg 0 = 0 := (hround 0).zero
  have hsecond : run next y a 6 = ⟨Function.update reg 2 ((y 5).2.setWidth 16), line 58 0,
      Isa.conditionCodes ((y 5).2.setWidth 16), a.mem, a.hex⟩ :=
    run_next y hrun (next_operand (program_code h.image) (y 5) rfl hzero)
  have hexec : Executes loop 58
      (fun b => ∃ reg', InRound ((y 3).2.setWidth 16) ((y 5).2.setWidth 16) 8 reg' ∧ b = ⟨reg', line 49 22,
        0b010#3, Function.update a.mem 1023 (product (y 3).2 (y 5).2), product (y 3).2 (y 5).2⟩)
      97 ⟨Function.update reg 2 ((y 5).2.setWidth 16), line 58 0, Isa.conditionCodes ((y 5).2.setWidth 16), a.mem,
        a.hex⟩ :=
    multiply_executes (loop_code h.image) (hround _) fun reg' hround' => ⟨reg', hround', by rw [product_eq]; rfl⟩
  obtain ⟨m, _, ⟨reg', hround', hend⟩, hinside⟩ := hexec.on_run fun k => y (6 + k)
  rw [← hsecond, ← run_add] at hend
  refine ⟨m, reg', fun l hl => ?_, hround'.zero, hround'.mask, hend⟩
  have hline := (hinside l hl).1
  rwa [← hsecond, ← run_add] at hline

theorem exists_pass (h : Home a) : ∃ m, Pass y a m := by
  obtain ⟨hopening, _⟩ := opening_run y h
  obtain ⟨m, reg, hloop, hzero, hmask, hend⟩ := loop_run y h
  have himage := image_display h.image (product (y 3).2 (y 5).2)
  have hback := run_next y hend (next_pause (program_code himage) _ rfl)
  have hhome := run_next y hback (next_restart (program_code himage) _ rfl)
  rw [Nat.add_right_comm 6 m 1] at hback hhome
  rw [Nat.add_right_comm 7 m 1] at hhome
  refine ⟨m, ⟨fun l hl => ?_, by rw [hend], by rw [hback], ?_⟩⟩
  · have hcases : l < 6 ∨ (∃ j, j < m ∧ l = 6 + j) ∨ l = 6 + m ∨ l = 7 + m := by
      by_cases hlt : l < 6 + m
      · exact (Nat.lt_or_ge l 6).imp_right fun hge => .inl ⟨l - 6, by omega, by omega⟩
      · omega
    rcases hcases with hlt | ⟨j, hj, rfl⟩ | rfl | rfl
    · have hat := hopening l hlt
      exact ⟨3 + l, .inl ⟨hlt, rfl⟩, hat.pc, fun _ => hat.image⟩
    · obtain ⟨k, hk, hpc⟩ := hloop j hj
      refine ⟨9 + k, .inr (.inl (by omega)), hpc.trans (congrArg _ (Nat.add_assoc 49 9 k)), fun hout => ?_⟩
      exact absurd hout (by omega)
    · rw [hend]
      exact ⟨22, .inr (.inr (.inl ⟨rfl, rfl⟩)), rfl, fun _ => himage⟩
    · rw [hback]
      exact ⟨23, .inr (.inr (.inr ⟨rfl, rfl⟩)), rfl, fun _ => himage⟩
  · rw [hhome]
    exact ⟨rfl, hzero, hmask, himage⟩

end Runs

section Schedule

variable {y : Nat → Switches} {a : Isa.State}

theorem Pass.scheduled {p m l k : Nat} (h : Pass (fun j => y (p + j)) (run next y a p) m) (hl : l < 8 + m)
    (hk : k < 24) (hpc : (run next y a (p + l)).pc = line 49 k) :
    Scheduled m l k ∧ (k < 9 ∨ 22 ≤ k → Image Instantiateram.multiplier 49 (run next y a (p + l)).mem) := by
  obtain ⟨k', hscheduled, hpc', himage⟩ := h.place l hl
  rw [← run_add] at hpc' himage
  have hk' : k' < 24 := by
    rcases hscheduled with h | h | h | h <;> omega
  obtain rfl := line_inj (by omega) (by omega) (hpc'.symm.trans hpc)
  exact ⟨hscheduled, himage⟩

theorem Pass.at_schedule {p m l k : Nat} (h : Pass (fun j => y (p + j)) (run next y a p) m)
    (hscheduled : Scheduled m l k) (hout : ¬(9 ≤ k ∧ k < 22)) : (run next y a (p + l)).pc = line 49 k := by
  have hl : l < 8 + m := by
    rcases hscheduled with h | h | h | h <;> omega
  obtain ⟨k', hscheduled', hpc, _⟩ := h.place l hl
  obtain rfl : k' = k := by
    rcases hscheduled with h | h | h | h <;> rcases hscheduled' with h' | h' | h' | h' <;> omega
  rw [run_add]
  exact hpc

structure Begins (y : Nat → Switches) (a : Isa.State) (p m : Nat) : Prop where
  home : Home (run next y a p)
  pass : Pass (fun j => y (p + j)) (run next y a p) m

variable (h : At 0 a)

include h

theorem exists_begins (n : Nat) (hn : 3 ≤ n) : ∃ p m l, Begins y a p m ∧ l < 8 + m ∧ n = p + l := by
  induction n, hn using Nat.le_induction with
  | base =>
      have hhome := (start_run y h).2
      obtain ⟨m, hpass⟩ := exists_pass (fun j => y (3 + j)) hhome
      exact ⟨3, m, 0, ⟨hhome, hpass⟩, by omega, rfl⟩
  | succ n hn ih =>
      obtain ⟨p, m, l, hbegins, hl, rfl⟩ := ih
      rcases Nat.lt_or_eq_of_le (Nat.succ_le_of_lt hl) with hlt | heq
      · exact ⟨p, m, l + 1, hbegins, hlt, rfl⟩
      · have hnext := hbegins.pass.home
        rw [← run_add, ← heq] at hnext
        obtain ⟨m', hpass⟩ := exists_pass (fun j => y (p + (l + 1) + j)) hnext
        exact ⟨p + (l + 1), m', 0, ⟨hnext, hpass⟩, by omega, rfl⟩

/-- From line 52 on, the line tells the place in the pass. -/
theorem located_at {n k : Nat} (hk : 3 ≤ k) (hk' : k < 24) (hpc : (run next y a n).pc = line 49 k) :
    ∃ p m l, Begins y a p m ∧ n = p + l ∧ Scheduled m l k := by
  have hn : 3 ≤ n := by
    by_contra hlt
    have hat := (start_run y h).1 n (Nat.lt_of_not_le hlt)
    have heq := line_inj (by omega) (by omega) (hat.pc.symm.trans hpc)
    omega
  obtain ⟨p, m, l, hbegins, hl, rfl⟩ := exists_begins h n hn
  exact ⟨p, m, l, hbegins, rfl, (hbegins.pass.scheduled hl hk' hpc).1⟩

theorem at_of_pc {n k : Nat} (hout : k < 9 ∨ 22 ≤ k) (hk : k < 24) (hpc : (run next y a n).pc = line 49 k) :
    At k (run next y a n) := by
  rcases Nat.lt_or_ge n 3 with hlt | hge
  · have hat := (start_run y h).1 n hlt
    obtain rfl := line_inj (by omega) (by omega) (hat.pc.symm.trans hpc)
    exact hat
  · obtain ⟨p, m, l, hbegins, hl, rfl⟩ := exists_begins h n hge
    exact ⟨hpc, (hbegins.pass.scheduled hl hk hpc).2 hout⟩

theorem home_of_pc {n : Nat} (hpc : (run next y a n).pc = 52) : Home (run next y a n) := by
  obtain ⟨p, m, l, hbegins, rfl, hscheduled⟩ := located_at (k := 3) h le_rfl (by decide) hpc
  obtain rfl : l = 0 := by
    rcases hscheduled with h | h | h | h <;> omega
  exact hbegins.home

theorem finish_executes_of_pc {n : Nat} (hpc : (run next y a n).pc = 57) :
    Executes code 49 (fun b => b.pc = 71) 98 (run next y a n) := by
  obtain ⟨p, m, l, hbegins, rfl, hscheduled⟩ := located_at (k := 8) h (by decide) (by decide) hpc
  obtain rfl : l = 5 := by
    rcases hscheduled with h | h | h | h <;> omega
  rw [run_add]
  exact finish_executes _ hbegins.home

theorem restart_executes_of_pc {n : Nat} (hpc : (run next y a n).pc = 72) :
    Executes code 49 (fun b => b.pc = 52) 1 (run next y a n) := by
  have himage := (at_of_pc (k := 23) h (by decide) (by decide) hpc).image
  obtain ⟨p, m, l, ⟨_, hpass⟩, rfl, hscheduled⟩ := located_at (k := 23) h (by decide) (by decide) hpc
  obtain rfl : l = 7 + m := by
    rcases hscheduled with h | h | h | h <;> omega
  have hnzp := hpass.nzp
  rw [← run_add] at hnzp
  generalize run next y a (p + (7 + m)) = b at *
  obtain ⟨reg, pc, nzp, mem, hex⟩ := b
  obtain rfl : pc = line 49 23 := hpc
  obtain rfl : nzp = 0b010#3 := hnzp
  exact executes_taken (l := 3) (program_code himage) code_length rfl (by decide) rfl (.done rfl)

/-- The first load at 57 after one at 55 is that of the same pass, and so is the
first output after that. -/
theorem product_shown {i j k : Nat} (hij : i < j) (hjk : j < k) (hi : (run next y a i).pc = 55)
    (hj : (run next y a j).pc = 57) (hk : (run next y a k).pc = 71)
    (hbetween : ∀ l, i < l → l < j → (run next y a l).pc ≠ 57)
    (hbefore : ∀ l, j < l → l < k → (run next y a l).pc ≠ 71) :
    (run next y a k).hex = product (y i).2 (y j).2 := by
  obtain ⟨p, m, l, ⟨_, hpass⟩, rfl, hscheduled⟩ := located_at (k := 6) h (by decide) (by decide) hi
  obtain rfl : l = 3 := by
    rcases hscheduled with h | h | h | h <;> omega
  have hsecond := hpass.at_schedule (l := 5) (k := 8) (.inl ⟨by decide, rfl⟩) fun h => by omega
  have houtput := hpass.at_schedule (l := 6 + m) (k := 22) (.inr (.inr (.inl ⟨rfl, rfl⟩))) fun h => by omega
  have hjle : j ≤ p + 5 := Nat.le_of_not_lt fun hlt => hbetween _ (by omega) hlt hsecond
  obtain ⟨l, rfl⟩ := Nat.exists_eq_add_of_le (by omega : p ≤ j)
  obtain rfl : l = 5 := by
    rcases (hpass.scheduled (k := 8) (by omega) (by decide) hj).1 with h | h | h | h <;> omega
  have hkle : k ≤ p + (6 + m) := Nat.le_of_not_lt fun hlt => hbefore _ (by omega) hlt houtput
  obtain ⟨l, rfl⟩ := Nat.exists_eq_add_of_le (by omega : p ≤ k)
  obtain rfl : l = 6 + m := by
    rcases (hpass.scheduled (k := 22) (by omega) (by decide) hk).1 with h | h | h | h <;> omega
  rw [run_add]
  exact hpass.hex

end Schedule

end ECE385.SLC3.MultiplierPasses
