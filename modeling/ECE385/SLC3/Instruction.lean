import ECE385.SLC3.Cycle
import ECE385.SLC3.Isa

namespace ECE385.SLC3.Instruction

open Clocked.Machine SLC3.Cycle
open Datapath (Word Registers)
open Isa (Instr)

def arch (c : Core) : Isa.State :=
  ⟨c.slc.dp.regFile, c.slc.dp.pc, c.slc.dp.nzp, c.ram.mem, c.slc.hexData⟩

def AtFetch (c : Core) : Prop := c.slc.isdu = .s18

theorem nzpIn_eq (v : Word) : Datapath.nzpIn v = Isa.conditionCodes v := by
  have hmsb : v.getLsbD 15 = v.msb := rfl
  simp only [Datapath.nzpIn, Isa.conditionCodes, hmsb]
  cases v.msb <;> rfl

theorem benIn_eq (w : Word) (nzp : BitVec 3) :
    Datapath.benIn w nzp = decide (w.extractLsb' 9 3 &&& nzp ≠ 0) := by
  have hbits : ∀ condition nzp : BitVec 3,
      (condition.getLsbD 2 && nzp.getLsbD 2 || condition.getLsbD 1 && nzp.getLsbD 1 ||
        condition.getLsbD 0 && nzp.getLsbD 0) = decide (condition &&& nzp ≠ 0) := by decide
  rw [← hbits]
  simp [Datapath.benIn]

theorem dataToCPU_eq (a : Isa.State) (sw : BitVec 10) (address : Word) :
    Slc3.dataToCPU address true false sw (a.mem (address.setWidth 10)) = a.read sw address := by
  have hswitches : (0#6 ++ sw : Word) = sw.setWidth 16 := by
    apply BitVec.eq_of_getLsbD_eq
    intro i hi
    rw [BitVec.getLsbD_append, BitVec.getLsbD_setWidth]
    by_cases h : i < 10
    · simp [h, hi]
    · simp [h, BitVec.getLsbD_of_ge sw i (by omega)]
  simp [Slc3.dataToCPU, Isa.State.read, Slc3.mappedAddress, hswitches]

theorem hexDataNext_eq (address v hex : Word) :
    Slc3.hexDataNext false address true v hex = if address = 0xffff#16 then v else hex := by
  simp [Slc3.hexDataNext, Slc3.mappedAddress]

theorem operand_eq (d : Registers) (a : Isa.State) (h : a.reg = d.regFile) :
    (Isa.operand d.ir).value a = Datapath.sr2muxOut d := by
  cases hbit : d.ir.getLsbD 5 <;>
    simp only [Isa.operand, Isa.Operand.value, Datapath.sr2muxOut, Datapath.mux2, Datapath.sr2Out,
      Datapath.ir5SE, hbit, h, Bool.false_eq_true, if_false, if_true]

/-- The registers on entering S_32, with the instruction word `w` fetched. -/
def fetched (d : Registers) (w : Word) : Registers :=
  { d with pc := d.pc + 1, mar := d.pc, mdr := w, ir := w, led := 0 }

def decoded (d : Registers) (w : Word) : Registers :=
  { fetched d w with ben := Datapath.benIn w d.nzp }

section Fetch

variable {x : Nat → Inputs} {d : Registers} {hex : Word} {mem : BitVec 10 → Word} {latch q w : Word}

theorem fetch_passage (hw : Slc3.dataToCPU d.pc true false (x 3).sw (mem (d.pc.setWidth 10)) = w) :
    Passage step AtFetch x ⟨⟨.s18, d, hex⟩, ⟨mem, latch, q⟩⟩ 5
      ⟨⟨.s32, fetched d w, hex⟩, ⟨mem, mem (d.pc.setWidth 10), mem (d.pc.setWidth 10)⟩⟩ := by
  subst hw
  refine .next (step_s18 ..) (by simp [AtFetch]) ?_
  refine .next (step_s33_1 ..) (by simp [AtFetch]) ?_
  refine .next (step_s33_2 ..) (by simp [AtFetch]) ?_
  refine .next (step_s33_3 ..) (by simp [AtFetch]) ?_
  exact .next (step_s35 ..) (by simp [AtFetch]) (.refl ..)

theorem decode_passage (hw : Slc3.dataToCPU d.pc true false (x 3).sw (mem (d.pc.setWidth 10)) = w)
    (hop : ISDU.dispatch (w.extractLsb' 12 4) ≠ .s18) :
    Passage step AtFetch x ⟨⟨.s18, d, hex⟩, ⟨mem, latch, q⟩⟩ 6
      ⟨⟨ISDU.dispatch (w.extractLsb' 12 4), decoded d w, hex⟩,
        ⟨mem, mem (d.pc.setWidth 10), mem (d.pc.setWidth 10)⟩⟩ :=
  (fetch_passage hw).trans (.next (step_s32 ..) hop (.refl ..))

theorem nop_excursion (hw : Slc3.dataToCPU d.pc true false (x 3).sw (mem (d.pc.setWidth 10)) = w)
    (hop : ISDU.dispatch (w.extractLsb' 12 4) = .s18) :
    Excursion step AtFetch x ⟨⟨.s18, d, hex⟩, ⟨mem, latch, q⟩⟩ 6
      ⟨⟨.s18, decoded d w, hex⟩, ⟨mem, mem (d.pc.setWidth 10), mem (d.pc.setWidth 10)⟩⟩ := by
  refine (fetch_passage hw).excursion (.last ?_ rfl)
  rw [step_s32]
  simp only [fetched, decoded, hop]

end Fetch

/-- From a state that has decoded its instruction, the controller returns to
S_18 within five cycles, having performed `instr`. A load reads the switches in
the fourth of them. -/
def Performs (y : Nat → Inputs) (c : Core) (instr : Instr) : Prop :=
  ∃ n t, n ≤ 5 ∧ Excursion step AtFetch y c n t ∧ arch t = instr.exec (y 3).sw (arch c)

section Execution

variable (y : Nat → Inputs) (d : Registers) (hex : Word) (mem : BitVec 10 → Word) (latch q : Word)

theorem arch_aluResult (v : Word) :
    arch ⟨⟨.s18, aluResult d v, hex⟩, ⟨mem, latch, q⟩⟩ =
      Isa.State.result ⟨d.regFile, d.pc, d.nzp, mem, hex⟩ (d.ir.extractLsb' 9 3) v := by
  simp only [arch, aluResult, Isa.State.result, Isa.State.setReg, nzpIn_eq]

theorem performs_add :
    Performs y ⟨⟨.s01, d, hex⟩, ⟨mem, latch, q⟩⟩
      (.add (d.ir.extractLsb' 9 3) (d.ir.extractLsb' 6 3) (Isa.operand d.ir)) := by
  refine ⟨1, _, by omega, .last (step_s01 ..) rfl, ?_⟩
  rw [arch_aluResult, ← operand_eq d ⟨d.regFile, d.pc, d.nzp, mem, hex⟩ rfl]
  rfl

theorem performs_and :
    Performs y ⟨⟨.s05, d, hex⟩, ⟨mem, latch, q⟩⟩
      (.and (d.ir.extractLsb' 9 3) (d.ir.extractLsb' 6 3) (Isa.operand d.ir)) := by
  refine ⟨1, _, by omega, .last (step_s05 ..) rfl, ?_⟩
  rw [arch_aluResult, ← operand_eq d ⟨d.regFile, d.pc, d.nzp, mem, hex⟩ rfl]
  rfl

theorem performs_not :
    Performs y ⟨⟨.s09, d, hex⟩, ⟨mem, latch, q⟩⟩
      (.not (d.ir.extractLsb' 9 3) (d.ir.extractLsb' 6 3)) := by
  refine ⟨1, _, by omega, .last (step_s09 ..) rfl, ?_⟩
  rw [arch_aluResult]
  rfl

theorem performs_ldr :
    Performs y ⟨⟨.s06, d, hex⟩, ⟨mem, latch, q⟩⟩
      (.ldr (d.ir.extractLsb' 9 3) (d.ir.extractLsb' 6 3) (Datapath.ir6SE d.ir)) := by
  refine ⟨5, _, le_rfl, .next (step_s06 ..) (by simp [AtFetch]) <|
    .next (step_s25_1 ..) (by simp [AtFetch]) <| .next (step_s25_2 ..) (by simp [AtFetch]) <|
    .next (step_s25_3 ..) (by simp [AtFetch]) <| .last (step_s27 ..) rfl, ?_⟩
  rw [arch_aluResult]
  simp only [dataToCPU_eq ⟨d.regFile, d.pc, d.nzp, mem, hex⟩]
  rw [BitVec.add_comm (Datapath.ir6SE d.ir)]
  rfl

theorem performs_str :
    Performs y ⟨⟨.s07, d, hex⟩, ⟨mem, latch, q⟩⟩
      (.str (d.ir.extractLsb' 9 3) (d.ir.extractLsb' 6 3) (Datapath.ir6SE d.ir)) := by
  refine ⟨5, _, le_rfl, .next (step_s07 ..) (by simp [AtFetch]) <|
    .next (step_s23 ..) (by simp [AtFetch]) <| .next (step_s16_1 ..) (by simp [AtFetch]) <|
    .next (step_s16_2 ..) (by simp [AtFetch]) <| .last (step_s16_3 ..) rfl, ?_⟩
  -- the three write cycles store the same word at the same address
  simp only [hexDataNext_eq, arch, Function.update_idem]
  rw [BitVec.add_comm (Datapath.ir6SE d.ir)]
  simp only [Instr.exec, Isa.State.write]
  split <;> rfl

theorem performs_jsr :
    Performs y ⟨⟨.s04, d, hex⟩, ⟨mem, latch, q⟩⟩ (.jsr (Isa.link d.ir) (Datapath.ir11SE d.ir)) := by
  refine ⟨2, _, by omega, .next (step_s04 ..) (by simp [AtFetch]) <| .last (step_s21 ..) rfl, ?_⟩
  simp only [arch, Instr.exec, Isa.State.setReg, BitVec.add_comm]
  rfl

theorem performs_jmp :
    Performs y ⟨⟨.s12, d, hex⟩, ⟨mem, latch, q⟩⟩ (.jmp (d.ir.extractLsb' 6 3)) := by
  refine ⟨1, _, by omega, .last (step_s12 ..) rfl, ?_⟩
  simp only [arch, Instr.exec, zero_add]

theorem performs_br (hben : d.ben = Datapath.benIn d.ir d.nzp) :
    Performs y ⟨⟨.s00, d, hex⟩, ⟨mem, latch, q⟩⟩ (.br (d.ir.extractLsb' 9 3) (Datapath.ir9SE d.ir)) := by
  have hs := step_s00 (y 0) d hex mem latch q
  rw [benIn_eq] at hben
  by_cases htaken : d.ir.extractLsb' 9 3 &&& d.nzp ≠ 0
  · rw [hben, decide_eq_true htaken, if_pos rfl] at hs
    refine ⟨2, _, by omega, .next hs (by simp [AtFetch]) <| .last (step_s22 ..) rfl, ?_⟩
    simp only [arch, Instr.exec, BitVec.add_comm]
    exact (if_pos htaken).symm
  · rw [hben, decide_eq_false htaken, if_neg Bool.false_ne_true] at hs
    refine ⟨1, _, by omega, .last hs rfl, ?_⟩
    simp only [arch, Instr.exec]
    exact (if_neg htaken).symm

end Execution

theorem decode_dispatch (w : Word) :
    Isa.decode w = match ISDU.dispatch (w.extractLsb' 12 4) with
      | .s01 => .add (w.extractLsb' 9 3) (w.extractLsb' 6 3) (Isa.operand w)
      | .s05 => .and (w.extractLsb' 9 3) (w.extractLsb' 6 3) (Isa.operand w)
      | .s09 => .not (w.extractLsb' 9 3) (w.extractLsb' 6 3)
      | .s06 => .ldr (w.extractLsb' 9 3) (w.extractLsb' 6 3) (Datapath.ir6SE w)
      | .s07 => .str (w.extractLsb' 9 3) (w.extractLsb' 6 3) (Datapath.ir6SE w)
      | .s04 => .jsr (Isa.link w) (Datapath.ir11SE w)
      | .s12 => .jmp (w.extractLsb' 6 3)
      | .s00 => .br (w.extractLsb' 9 3) (Datapath.ir9SE w)
      | .pauseIR1 => .pse
      | _ => .nop := by
  rw [ISDU.dispatch, Isa.decode]
  generalize w.extractLsb' 12 4 = opcode
  by_cases hadd : opcode = 0b0001#4
  · simp only [if_pos hadd]
  by_cases hand : opcode = 0b0101#4
  · simp only [if_neg hadd, if_pos hand]
  by_cases hnot : opcode = 0b1001#4
  · simp only [if_neg hadd, if_neg hand, if_pos hnot]
  by_cases hldr : opcode = 0b0110#4
  · simp only [if_neg hadd, if_neg hand, if_neg hnot, if_pos hldr]
    rfl
  by_cases hstr : opcode = 0b0111#4
  · simp only [if_neg hadd, if_neg hand, if_neg hnot, if_neg hldr, if_pos hstr]
    rfl
  by_cases hjsr : opcode = 0b0100#4
  · simp only [if_neg hadd, if_neg hand, if_neg hnot, if_neg hldr, if_neg hstr, if_pos hjsr]
    rfl
  simp only [if_neg hadd, if_neg hand, if_neg hnot, if_neg hldr, if_neg hstr, if_neg hjsr]
  by_cases hjmp : opcode = 0b1100#4
  · simp only [if_pos hjmp]
  by_cases hbr : opcode = 0b0000#4
  · simp only [if_neg hjmp, if_pos hbr]
    rfl
  by_cases hpse : opcode = 0b1101#4
  · simp only [if_neg hjmp, if_neg hbr, if_pos hpse]
  · simp only [if_neg hjmp, if_neg hbr, if_neg hpse]

theorem decode_pse_iff (w : Word) :
    Isa.decode w = .pse ↔ ISDU.dispatch (w.extractLsb' 12 4) = .pauseIR1 := by
  rw [decode_dispatch]
  rcases ISDU.dispatch_cases (w.extractLsb' 12 4) with h | h | h | h | h | h | h | h | h | h <;> simp [h]

/-- The controller does what the decoder says, for every opcode that it
dispatches to a state of its own. -/
theorem dispatch_performs (y : Nat → Inputs) (d : Registers) (hex : Word) (mem : BitVec 10 → Word)
    (latch q : Word) (hben : d.ben = Datapath.benIn d.ir d.nzp)
    (hop : ISDU.dispatch (d.ir.extractLsb' 12 4) ≠ .s18)
    (hpse : ISDU.dispatch (d.ir.extractLsb' 12 4) ≠ .pauseIR1) :
    Performs y ⟨⟨ISDU.dispatch (d.ir.extractLsb' 12 4), d, hex⟩, ⟨mem, latch, q⟩⟩ (Isa.decode d.ir) := by
  rw [decode_dispatch]
  rcases ISDU.dispatch_cases (d.ir.extractLsb' 12 4) with h | h | h | h | h | h | h | h | h | h
  · rw [h]; exact performs_add ..
  · rw [h]; exact performs_and ..
  · rw [h]; exact performs_not ..
  · rw [h]; exact performs_ldr ..
  · rw [h]; exact performs_str ..
  · rw [h]; exact performs_jsr ..
  · rw [h]; exact performs_jmp ..
  · rw [h]; exact performs_br _ _ _ _ _ _ hben
  · exact absurd h hpse
  · exact absurd h hop

/-- Every instruction but PSE takes at most eleven cycles and does what the
instruction set says. -/
theorem instruction_excursion (x : Nat → Inputs) (c : Core) (hc : AtFetch c)
    (hpse : Isa.decode ((arch c).fetch (x 3).sw) ≠ .pse) :
    ∃ n t, n ≤ 11 ∧ Excursion step AtFetch x c n t ∧ arch t = (arch c).next (x 3).sw (x 9).sw := by
  obtain ⟨⟨isdu, d, hex⟩, ⟨mem, latch, q⟩⟩ := c
  obtain rfl : isdu = .s18 := hc
  have hw : Slc3.dataToCPU d.pc true false (x 3).sw (mem (d.pc.setWidth 10)) =
      (arch ⟨⟨.s18, d, hex⟩, ⟨mem, latch, q⟩⟩).fetch (x 3).sw :=
    dataToCPU_eq ⟨d.regFile, d.pc, d.nzp, mem, hex⟩ _ _
  rw [Isa.State.next]
  generalize (arch ⟨⟨.s18, d, hex⟩, ⟨mem, latch, q⟩⟩).fetch (x 3).sw = w at *
  by_cases hnop : ISDU.dispatch (w.extractLsb' 12 4) = .s18
  · refine ⟨6, _, by omega, nop_excursion hw hnop, ?_⟩
    rw [decode_dispatch, hnop]
    rfl
  · obtain ⟨n, t, hn, hreturn, harch⟩ := dispatch_performs (fun k => x (k + 6)) (decoded d w) hex mem
      (mem (d.pc.setWidth 10)) (mem (d.pc.setWidth 10)) rfl hnop (mt (decode_pse_iff w).mpr hpse)
    exact ⟨n + 6, t, by omega, (decode_passage hw hnop).excursion hreturn, harch⟩

end ECE385.SLC3.Instruction
