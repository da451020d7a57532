import ECE385.SLC3.SramTop

namespace ECE385.SLC3.Cycle

open Datapath (Word Undriven Registers ir5SE ir6SE ir9SE ir11SE)
open SramTop (Ram)

/-- The processor and its memory, as they run while Reset is low and the
initialiser has released the memory port. -/
structure Core where
  slc : Slc3.State
  ram : Ram

structure Inputs where
  sw : BitVec 10
  run : Bool
  cont : Bool
  undriven : Undriven
  dontcare : Word

def step (i : Inputs) (c : Core) : Core where
  slc := Slc3.step ⟨i.sw, false, i.run, i.cont, c.ram.q, i.undriven⟩ c.slc
  ram := c.ram.step (c.slc.addr.setWidth 10) c.slc.dataToSRAM c.slc.oe c.slc.we i.dontcare

variable (i : Inputs) (d : Registers) (hex : Word) (mem : BitVec 10 → Word) (latch q : Word)

theorem step_s18 :
    step i ⟨⟨.s18, d, hex⟩, ⟨mem, latch, q⟩⟩ =
      ⟨⟨.s33_1, { d with mar := d.pc, pc := d.pc + 1, led := 0 }, hex⟩, ⟨mem, latch, latch⟩⟩ := rfl

theorem step_s33_1 :
    step i ⟨⟨.s33_1, d, hex⟩, ⟨mem, latch, q⟩⟩ =
      ⟨⟨.s33_2, { d with led := 0 }, hex⟩, ⟨mem, mem (d.mar.setWidth 10), latch⟩⟩ := rfl

theorem step_s33_2 :
    step i ⟨⟨.s33_2, d, hex⟩, ⟨mem, latch, q⟩⟩ =
      ⟨⟨.s33_3, { d with led := 0 }, hex⟩, ⟨mem, mem (d.mar.setWidth 10), latch⟩⟩ := rfl

theorem step_s33_3 :
    step i ⟨⟨.s33_3, d, hex⟩, ⟨mem, latch, q⟩⟩ =
      ⟨⟨.s35, { d with mdr := Slc3.dataToCPU d.mar true false i.sw q, led := 0 }, hex⟩,
        ⟨mem, mem (d.mar.setWidth 10), latch⟩⟩ := rfl

theorem step_s35 :
    step i ⟨⟨.s35, d, hex⟩, ⟨mem, latch, q⟩⟩ =
      ⟨⟨.s32, { d with ir := d.mdr, led := 0 }, hex⟩, ⟨mem, latch, latch⟩⟩ := rfl

theorem step_s32 :
    step i ⟨⟨.s32, d, hex⟩, ⟨mem, latch, q⟩⟩ =
      ⟨⟨ISDU.dispatch (d.ir.extractLsb' 12 4), { d with ben := Datapath.benIn d.ir d.nzp, led := 0 }, hex⟩,
        ⟨mem, latch, latch⟩⟩ := rfl

theorem step_pauseIR1 :
    step i ⟨⟨.pauseIR1, d, hex⟩, ⟨mem, latch, q⟩⟩ =
      ⟨⟨if !i.cont then .pauseIR1 else .pauseIR2, { d with led := d.ir.extractLsb' 0 10 }, hex⟩,
        ⟨mem, latch, latch⟩⟩ := rfl

theorem step_pauseIR2 :
    step i ⟨⟨.pauseIR2, d, hex⟩, ⟨mem, latch, q⟩⟩ =
      ⟨⟨if i.cont then .pauseIR2 else .s18, { d with led := 0 }, hex⟩, ⟨mem, latch, latch⟩⟩ := rfl

def aluResult (d : Registers) (v : Word) : Registers :=
  { d with
    regFile := Function.update d.regFile (d.ir.extractLsb' 9 3) v
    nzp := Datapath.nzpIn v
    led := 0 }

theorem step_s01 :
    step i ⟨⟨.s01, d, hex⟩, ⟨mem, latch, q⟩⟩ =
      ⟨⟨.s18, aluResult d (d.regFile (d.ir.extractLsb' 6 3) + Datapath.sr2muxOut d), hex⟩,
        ⟨mem, latch, latch⟩⟩ := by
  rw [aluResult, ← Datapath.write_regFile]
  rfl

theorem step_s05 :
    step i ⟨⟨.s05, d, hex⟩, ⟨mem, latch, q⟩⟩ =
      ⟨⟨.s18, aluResult d (d.regFile (d.ir.extractLsb' 6 3) &&& Datapath.sr2muxOut d), hex⟩,
        ⟨mem, latch, latch⟩⟩ := by
  rw [aluResult, ← Datapath.write_regFile]
  rfl

theorem step_s09 :
    step i ⟨⟨.s09, d, hex⟩, ⟨mem, latch, q⟩⟩ =
      ⟨⟨.s18, aluResult d (~~~d.regFile (d.ir.extractLsb' 6 3)), hex⟩, ⟨mem, latch, latch⟩⟩ := by
  rw [aluResult, ← Datapath.write_regFile]
  rfl

theorem step_s27 :
    step i ⟨⟨.s27, d, hex⟩, ⟨mem, latch, q⟩⟩ =
      ⟨⟨.s18, aluResult d d.mdr, hex⟩, ⟨mem, latch, latch⟩⟩ := by
  rw [aluResult, ← Datapath.write_regFile]
  rfl

theorem step_s06 :
    step i ⟨⟨.s06, d, hex⟩, ⟨mem, latch, q⟩⟩ =
      ⟨⟨.s25_1, { d with mar := ir6SE d.ir + d.regFile (d.ir.extractLsb' 6 3), led := 0 }, hex⟩,
        ⟨mem, latch, latch⟩⟩ := rfl

theorem step_s25_1 :
    step i ⟨⟨.s25_1, d, hex⟩, ⟨mem, latch, q⟩⟩ =
      ⟨⟨.s25_2, { d with led := 0 }, hex⟩, ⟨mem, mem (d.mar.setWidth 10), latch⟩⟩ := rfl

theorem step_s25_2 :
    step i ⟨⟨.s25_2, d, hex⟩, ⟨mem, latch, q⟩⟩ =
      ⟨⟨.s25_3, { d with led := 0 }, hex⟩, ⟨mem, mem (d.mar.setWidth 10), latch⟩⟩ := rfl

theorem step_s25_3 :
    step i ⟨⟨.s25_3, d, hex⟩, ⟨mem, latch, q⟩⟩ =
      ⟨⟨.s27, { d with mdr := Slc3.dataToCPU d.mar true false i.sw q, led := 0 }, hex⟩,
        ⟨mem, mem (d.mar.setWidth 10), latch⟩⟩ := rfl

theorem step_s07 :
    step i ⟨⟨.s07, d, hex⟩, ⟨mem, latch, q⟩⟩ =
      ⟨⟨.s23, { d with mar := ir6SE d.ir + d.regFile (d.ir.extractLsb' 6 3), led := 0 }, hex⟩,
        ⟨mem, latch, latch⟩⟩ := rfl

theorem step_s23 :
    step i ⟨⟨.s23, d, hex⟩, ⟨mem, latch, q⟩⟩ =
      ⟨⟨.s16_1, { d with mdr := d.regFile (d.ir.extractLsb' 9 3), led := 0 }, hex⟩,
        ⟨mem, latch, latch⟩⟩ := rfl

theorem step_s16_1 :
    step i ⟨⟨.s16_1, d, hex⟩, ⟨mem, latch, q⟩⟩ =
      ⟨⟨.s16_2, { d with led := 0 }, Slc3.hexDataNext false d.mar true d.mdr hex⟩,
        ⟨Function.update mem (d.mar.setWidth 10) d.mdr, latch, latch⟩⟩ := rfl

theorem step_s16_2 :
    step i ⟨⟨.s16_2, d, hex⟩, ⟨mem, latch, q⟩⟩ =
      ⟨⟨.s16_3, { d with led := 0 }, Slc3.hexDataNext false d.mar true d.mdr hex⟩,
        ⟨Function.update mem (d.mar.setWidth 10) d.mdr, latch, latch⟩⟩ := rfl

theorem step_s16_3 :
    step i ⟨⟨.s16_3, d, hex⟩, ⟨mem, latch, q⟩⟩ =
      ⟨⟨.s18, { d with led := 0 }, Slc3.hexDataNext false d.mar true d.mdr hex⟩,
        ⟨Function.update mem (d.mar.setWidth 10) d.mdr, latch, latch⟩⟩ := rfl

theorem step_s04 :
    step i ⟨⟨.s04, d, hex⟩, ⟨mem, latch, q⟩⟩ =
      ⟨⟨.s21,
          { d with
            regFile := Function.update d.regFile
              (Datapath.mux2 (d.ir.extractLsb' 9 3) 0b111#3 (d.ir.getLsbD 11)) d.pc
            led := 0 }, hex⟩,
        ⟨mem, latch, latch⟩⟩ := by
  rw [← Datapath.write_regFile]
  rfl

theorem step_s21 :
    step i ⟨⟨.s21, d, hex⟩, ⟨mem, latch, q⟩⟩ =
      ⟨⟨.s18, { d with pc := ir11SE d.ir + d.pc, led := 0 }, hex⟩, ⟨mem, latch, latch⟩⟩ := rfl

theorem step_s12 :
    step i ⟨⟨.s12, d, hex⟩, ⟨mem, latch, q⟩⟩ =
      ⟨⟨.s18, { d with pc := 0 + d.regFile (d.ir.extractLsb' 6 3), led := 0 }, hex⟩,
        ⟨mem, latch, latch⟩⟩ := rfl

theorem step_s00 :
    step i ⟨⟨.s00, d, hex⟩, ⟨mem, latch, q⟩⟩ =
      ⟨⟨if d.ben then .s22 else .s18, { d with led := 0 }, hex⟩, ⟨mem, latch, latch⟩⟩ := rfl

theorem step_s22 :
    step i ⟨⟨.s22, d, hex⟩, ⟨mem, latch, q⟩⟩ =
      ⟨⟨.s18, { d with pc := ir9SE d.ir + d.pc, led := 0 }, hex⟩, ⟨mem, latch, latch⟩⟩ := rfl

end ECE385.SLC3.Cycle
