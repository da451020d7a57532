import Mathlib.Tactic.IntervalCases
import ECE385.SLC3.SortProgram

namespace ECE385.SLC3.EntryFunction

open Clocked.Machine (run run_zero run_add run_succ)
open Execution
open Isa (Instr Reg Word)
open SortFunction (Frame)
open SortProgram (Loaded table_inj table_outside table_ne_display)
open Stepping

def code : List Instr :=
  [ .and 1 1 (.imm 0), .str 1 0 (-1), .pse, .ldr 2 0 (-1), .add 5 6 (.reg 1), .str 2 5 0, .add 1 1 (.imm 1),
    .add 3 1 (.imm (-16)), .br 0b100 (-8), .jmp 7 ]

theorem decode_entryFunction : Instantiateram.entryFunction.map Isa.decode = code := by decide

theorem entry_code {k : Nat} {mem : BitVec 10 → Word} (h : Loaded k mem) : Code code 109 mem :=
  decode_entryFunction ▸ h.entry.code

theorem code_length : 109 + code.length ≤ 1024 := by decide

structure Entering (k : Nat) (ret : Word) (entered : Nat → Word) (j : Nat) (b : Isa.State) : Prop where
  pc : b.pc = line 109 (if j < 16 then 1 else 9)
  count : b.reg 1 = BitVec.ofNat 16 j
  frame : Frame 74 ret b.reg
  loaded : Loaded k b.mem
  table : ∀ i, i < j → b.mem (BitVec.ofNat 10 (74 + i)) = entered i

structure Asks (j : Nat) (b : Isa.State) : Prop where
  pc : b.pc = 111
  hex : b.hex = BitVec.ofNat 16 j
  paused : ∀ sw, Isa.decode (b.fetch sw) = .pse

section Round

variable {k j : Nat} {ret : Word} {entered : Nat → Word} {a : Isa.State} (y : Nat → Switches)

theorem entry_round (hj : j < 16) (h : Entering k ret entered j a) (hsw : (y 2).2.setWidth 16 = entered j) :
    Asks j (run next y a 1) ∧ Stays code 109 y a 8 ∧ Entering k ret entered (j + 1) (run next y a 8) := by
  obtain ⟨reg, pc, nzp, mem, hex⟩ := a
  obtain ⟨hpc, hcount, hframe, hloaded, htable⟩ := h
  rw [if_pos hj] at hpc
  obtain rfl : pc = line 109 1 := hpc
  replace hcount : reg 1 = BitVec.ofNat 16 j := hcount
  have hbase : reg 6 = BitVec.ofNat 16 74 := hframe.base
  have h1 := run_next (run_zero next y ⟨reg, line 109 1, nzp, mem, hex⟩)
    (next_show (entry_code hloaded) code_length (y 0) rfl hframe.zero hcount)
  have hloaded' : Loaded k (Function.update mem 1023 (BitVec.ofNat 16 j)) := hloaded.update (.inr (by decide)) _
  have h2 := run_next h1 (next_pause (entry_code hloaded') code_length (y 1) rfl)
  have h3 := run_next h2 (next_switches (entry_code hloaded') code_length (y 2) rfl hframe.zero)
  rw [hsw] at h3
  have hpointer : reg 6 + reg 1 = line 74 j := by
    rw [hbase, hcount, ← BitVec.ofNat_add]
    rfl
  have h4 := run_next h3 (next_compute (entry_code hloaded') code_length (y 3) rfl rfl hpointer)
  have haddress : line 74 j + 0 = line 74 j := BitVec.add_zero _
  have h5 := run_next h4 (next_store (entry_code hloaded') code_length (y 4) (v := entered j) rfl haddress
    (line_ne_mapped (by omega)) rfl)
  rw [setWidth_line] at h5
  have hloaded'' := hloaded'.update (table_outside hj) (entered j)
  have hnext : reg 1 + 1 = BitVec.ofNat 16 (j + 1) := by
    rw [hcount]
    exact (BitVec.ofNat_add j 1).symm
  have h6 := run_next h5 (next_compute (entry_code hloaded'') code_length (y 5) rfl rfl hnext)
  have h7 := run_next h6 (next_compute (entry_code hloaded'') code_length (y 6) rfl rfl
    (v := BitVec.ofNat 16 (j + 1) + (-16)) rfl)
  have h8 := run_next h7
    (next_decision (entry_code hloaded'') code_length (y 7) (l := 1) rfl (SortProgram.more_left hj) rfl)
  refine ⟨⟨by rw [h1]; rfl, by rw [h1], fun sw => ?_⟩, fun i hi => ?_, ?_⟩
  · rw [h1]
    exact fetch_line (entry_code hloaded') code_length rfl sw
  · interval_cases i
    exacts [⟨1, by decide, rfl⟩, ⟨2, by decide, congrArg Isa.State.pc h1⟩, ⟨3, by decide, congrArg Isa.State.pc h2⟩,
      ⟨4, by decide, congrArg Isa.State.pc h3⟩, ⟨5, by decide, congrArg Isa.State.pc h4⟩,
      ⟨6, by decide, congrArg Isa.State.pc h5⟩, ⟨7, by decide, congrArg Isa.State.pc h6⟩,
      ⟨8, by decide, congrArg Isa.State.pc h7⟩]
  · rw [h8]
    refine ⟨rfl, rfl, ⟨hframe.zero, hbase, hframe.link⟩, hloaded'', fun i hi => ?_⟩
    rcases Nat.lt_or_eq_of_le (Nat.le_of_lt_succ hi) with hlt | rfl
    · have hother : BitVec.ofNat 10 (74 + i) ≠ BitVec.ofNat 10 (74 + j) := fun heq =>
        absurd (table_inj (by omega) hj heq) (Nat.ne_of_lt hlt)
      have hdisplay := table_ne_display (i := i) (by omega)
      exact (Function.update_of_ne hother ..).trans <| (Function.update_of_ne hdisplay ..).trans (htable i hlt)
    · exact Function.update_self ..

theorem entry_start (hpc : a.pc = 109) (hframe : Frame 74 ret a.reg) (hloaded : Loaded k a.mem) :
    Entering k ret entered 0 (run next y a 1) := by
  obtain ⟨reg, pc, nzp, mem, hex⟩ := a
  obtain rfl : pc = line 109 0 := hpc
  have hclear : reg 1 &&& 0 = 0 := BitVec.and_zero
  have h1 := run_next (run_zero next y ⟨reg, line 109 0, nzp, mem, hex⟩)
    (next_compute (entry_code hloaded) code_length (y 0) rfl rfl hclear)
  rw [h1]
  exact ⟨rfl, rfl, ⟨hframe.zero, hframe.base, hframe.link⟩, hloaded, fun i hi => absurd hi (Nat.not_lt_zero i)⟩

theorem entry_rounds (hpc : a.pc = 109) (hframe : Frame 74 ret a.reg) (hloaded : Loaded k a.mem)
    (hsw : ∀ j, j < 16 → (y (8 * j + 3)).2.setWidth 16 = entered j) {j : Nat} (hj : j ≤ 16) :
    Stays code 109 y a (8 * j + 1) ∧ Entering k ret entered j (run next y a (8 * j + 1)) := by
  induction j with
  | zero => exact ⟨stays_one (l := 0) (by decide) hpc, entry_start y hpc hframe hloaded⟩
  | succ j ih =>
      have hindex : 8 * (j + 1) + 1 = 8 * j + 1 + 8 := by omega
      obtain ⟨hstays, hentering⟩ := ih (Nat.le_of_succ_le hj)
      have hround := (entry_round (fun i => y (8 * j + 1 + i)) hj hentering (hsw j hj)).2
      rw [hindex, run_add]
      exact ⟨hstays.trans hround.1, hround.2⟩

/-- The function has returned with all the words. -/
structure Entered (k : Nat) (ret : Word) (entered : Nat → Word) (b : Isa.State) : Prop where
  pc : b.pc = ret
  frame : Frame 74 ret b.reg
  loaded : Loaded k b.mem
  table : SortFunction.words 74 b.mem = (List.range 16).map entered

/-- Sixteen times the function shows an index, pauses and reads the switches. -/
theorem entry_run (hpc : a.pc = 109) (hframe : Frame 74 ret a.reg) (hloaded : Loaded k a.mem)
    (hsw : ∀ j, j < 16 → (y (8 * j + 3)).2.setWidth 16 = entered j) :
    (∀ j, j < 16 → Asks j (run next y a (8 * j + 2))) ∧ Stays code 109 y a 130 ∧
      Entered k ret entered (run next y a 130) := by
  obtain ⟨hstays, hentering⟩ := entry_rounds y hpc hframe hloaded hsw le_rfl
  refine ⟨fun j hj => ?_, hstays.trans (stays_one (l := 9) (by decide) hentering.pc), ?_⟩
  · have hindex : 8 * j + 2 = 8 * j + 1 + 1 := rfl
    rw [hindex, run_add]
    refine (entry_round _ hj (entry_rounds y hpc hframe hloaded hsw hj.le).2 ?_).1
    exact hsw j hj
  · obtain ⟨hpc', -, hframe', hloaded', htable⟩ := hentering
    have hindex : 130 = 8 * 16 + 1 + 1 := rfl
    rw [hindex, run_succ]
    generalize run next y a (8 * 16 + 1) = b at *
    obtain ⟨reg, pc, nzp, mem, hex⟩ := b
    obtain rfl : pc = line 109 9 := hpc'
    rw [next_jump (entry_code hloaded') code_length _ rfl hframe'.link]
    refine ⟨rfl, hframe', hloaded', List.map_congr_left fun i hi => ?_⟩
    exact htable i (List.mem_range.mp hi)

end Round

end ECE385.SLC3.EntryFunction
