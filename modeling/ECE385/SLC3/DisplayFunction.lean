import Mathlib.Tactic.IntervalCases
import ECE385.SLC3.SortProgram

namespace ECE385.SLC3.DisplayFunction

open Clocked.Machine (run run_zero run_add run_succ)
open Execution
open Isa (Instr Reg Word)
open SortFunction (Frame)
open SortProgram (Loaded displayWord displayWords)
open Stepping

def code : List Instr :=
  [ .and 1 1 (.imm 0), .add 4 7 (.reg 0), .jsr 7 0, .add 5 7 (.reg 0), .add 7 4 (.reg 0), .ldr 3 5 15,
    .add 2 0 (.imm 8), .add 2 2 (.reg 2), .add 4 6 (.reg 1), .ldr 4 4 0, .str 4 0 (-1), .pse, .add 3 3 (.reg 2),
    .str 3 5 8, .add 1 1 (.imm 1), .add 4 1 (.imm (-16)), .br 0b100 (-9), .jmp 7, .pse ]

/-- The checkpoint remains a pause through all the changes. -/
theorem display_code {k : Nat} {mem : BitVec 10 → Word} (h : Loaded k mem) : Code code 137 mem := by
  have hcode : Instantiateram.displayFunction.map Isa.decode = code := by decide
  have hdecoded : (displayWords k).map Isa.decode = code := by
    rw [displayWords, List.map_set, hcode, SortProgram.decode_displayWord h.changes]
    rfl
  exact hdecoded ▸ h.display.code

theorem code_length : 137 + code.length ≤ 1024 := by decide

/-- The changes of the checkpoint before round `i` of a call that has found `k` of them. -/
def changes (k i : Nat) : Nat := if i = 0 then k else i

structure Showing (k : Nat) (ret : Word) (t : Nat → Word) (i : Nat) (b : Isa.State) : Prop where
  pc : b.pc = line 137 (if i < 16 then 8 else 17)
  count : b.reg 1 = BitVec.ofNat 16 i
  sixteen : b.reg 2 = 16
  word : b.reg 3 = displayWord i
  here : b.reg 5 = 140
  frame : Frame 74 ret b.reg
  loaded : Loaded (changes k i) b.mem
  table : ∀ j, j < 16 → b.mem (BitVec.ofNat 10 (74 + j)) = t j

structure Shows (k : Nat) (t : Nat → Word) (i : Nat) (b : Isa.State) : Prop where
  pc : b.pc = 148
  hex : b.hex = t i
  fetch : ∀ sw, b.fetch sw = displayWord (changes k i)
  paused : ∀ sw, Isa.decode (b.fetch sw) = .pse

section Round

variable {k i : Nat} {ret : Word} {t : Nat → Word} {a : Isa.State} (y : Nat → Switches)

theorem display_round (hi : i < 16) (h : Showing k ret t i a) :
    Shows k t i (run next y a 3) ∧ Stays code 137 y a 9 ∧ Showing k ret t (i + 1) (run next y a 9) := by
  obtain ⟨reg, pc, nzp, mem, hex⟩ := a
  obtain ⟨hpc, hcount, hsixteen, hword, hhere, hframe, hloaded, htable⟩ := h
  rw [if_pos hi] at hpc
  obtain rfl : pc = line 137 8 := hpc
  replace hcount : reg 1 = BitVec.ofNat 16 i := hcount
  replace hsixteen : reg 2 = 16 := hsixteen
  replace hword : reg 3 = displayWord i := hword
  replace hhere : reg 5 = 140 := hhere
  have hbase : reg 6 = BitVec.ofNat 16 74 := hframe.base
  have hpointer : reg 6 + reg 1 = line 74 i := by
    rw [hbase, hcount, ← BitVec.ofNat_add]
    rfl
  have h1 := run_next (run_zero next y ⟨reg, line 137 8, nzp, mem, hex⟩)
    (next_compute (display_code hloaded) code_length (y 0) rfl rfl hpointer)
  have haddress : line 74 i + 0 = line 74 i := BitVec.add_zero _
  have hitem : mem ((line 74 i).setWidth 10) = t i := by
    rw [setWidth_line]
    exact htable i hi
  have h2 := run_next h1
    (next_load (display_code hloaded) code_length (y 1) rfl haddress (line_ne_mapped (by omega)) hitem)
  have h3 := run_next h2 (next_show (display_code hloaded) code_length (y 2) rfl hframe.zero rfl)
  have hloaded' : Loaded (changes k i) (Function.update mem 1023 (t i)) := hloaded.update (.inr (by decide)) _
  have h4 := run_next h3 (next_pause (display_code hloaded') code_length (y 3) rfl)
  have hchange : reg 3 + reg 2 = displayWord (i + 1) := by rw [hword, hsixteen, SortProgram.displayWord_succ]
  have h5 := run_next h4 (next_compute (display_code hloaded') code_length (y 4) rfl rfl hchange)
  have hcheckpoint : reg 5 + 8 = 148 := by
    rw [hhere]
    rfl
  have h6 := run_next h5 (next_store (display_code hloaded') code_length (y 5) rfl hcheckpoint (by decide) rfl)
  have hloaded'' := hloaded'.modify (l := i + 1) hi
  have hnext : reg 1 + 1 = BitVec.ofNat 16 (i + 1) := by
    rw [hcount]
    exact (BitVec.ofNat_add i 1).symm
  have h7 := run_next h6 (next_compute (display_code hloaded'') code_length (y 6) rfl rfl hnext)
  have h8 := run_next h7 (next_compute (display_code hloaded'') code_length (y 7) rfl rfl
    (v := BitVec.ofNat 16 (i + 1) + (-16)) rfl)
  have h9 := run_next h8
    (next_decision (display_code hloaded'') code_length (y 8) (l := 8) rfl (SortProgram.more_left hi) rfl)
  refine ⟨⟨by rw [h3]; rfl, by rw [h3]; rfl, fun sw => ?_, fun sw => ?_⟩, fun j hj => ?_, ?_⟩
  · rw [h3]
    exact hloaded'.display 11 _ rfl
  · rw [h3]
    exact fetch_line (display_code hloaded') code_length rfl sw
  · interval_cases j
    exacts [⟨8, by decide, rfl⟩, ⟨9, by decide, congrArg Isa.State.pc h1⟩, ⟨10, by decide, congrArg Isa.State.pc h2⟩,
      ⟨11, by decide, congrArg Isa.State.pc h3⟩, ⟨12, by decide, congrArg Isa.State.pc h4⟩,
      ⟨13, by decide, congrArg Isa.State.pc h5⟩, ⟨14, by decide, congrArg Isa.State.pc h6⟩,
      ⟨15, by decide, congrArg Isa.State.pc h7⟩, ⟨16, by decide, congrArg Isa.State.pc h8⟩]
  · rw [h9]
    refine ⟨rfl, rfl, hsixteen, rfl, hhere, ⟨hframe.zero, hbase, hframe.link⟩, hloaded'', fun j hj => ?_⟩
    have hother := SortProgram.table_ne_checkpoint hj
    have hdisplay := SortProgram.table_ne_display hj
    exact (Function.update_of_ne hother ..).trans <| (Function.update_of_ne hdisplay ..).trans (htable j hj)

theorem display_start (hpc : a.pc = 137) (hframe : Frame 74 ret a.reg) (hloaded : Loaded k a.mem)
    (htable : ∀ j, j < 16 → a.mem (BitVec.ofNat 10 (74 + j)) = t j) :
    Stays code 137 y a 8 ∧ Showing k ret t 0 (run next y a 8) := by
  obtain ⟨reg, pc, nzp, mem, hex⟩ := a
  obtain rfl : pc = line 137 0 := hpc
  replace hframe : Frame 74 ret reg := hframe
  have hzero : reg 0 = 0 := hframe.zero
  have hcode := display_code hloaded
  have hclear : reg 1 &&& 0 = 0 := BitVec.and_zero
  have h1 := run_next (run_zero next y ⟨reg, line 137 0, nzp, mem, hex⟩)
    (next_compute hcode code_length (y 0) rfl rfl hclear)
  have hsum (v : Word) : v + reg 0 = v := by rw [hzero]; exact BitVec.add_zero v
  have h2 := run_next h1 (next_compute hcode code_length (y 1) rfl rfl ((hsum _).trans hframe.link))
  have h3 := run_next h2 (next_call hcode code_length (y 2) rfl (BitVec.add_zero _))
  have h4 := run_next h3 (next_compute hcode code_length (y 3) rfl rfl (hsum (line 137 3)))
  have h5 := run_next h4 (next_compute hcode code_length (y 4) rfl rfl (hsum ret))
  have hword : mem 155 = displayWord 0 := hloaded.display 18 _ rfl
  have haddress : line 137 3 + 15 = 155 := rfl
  have h6 := run_next h5 (next_load hcode code_length (y 5) rfl haddress (by decide) hword)
  have height : reg 0 + 8 = 8 := by rw [hzero]; rfl
  have h7 := run_next h6 (next_compute hcode code_length (y 6) rfl rfl height)
  have hdouble : (8 : Word) + 8 = 16 := rfl
  have h8 := run_next h7 (next_compute hcode code_length (y 7) rfl rfl hdouble)
  refine ⟨fun j hj => ?_, ?_⟩
  · interval_cases j
    exacts [⟨0, by decide, rfl⟩, ⟨1, by decide, congrArg Isa.State.pc h1⟩, ⟨2, by decide, congrArg Isa.State.pc h2⟩,
      ⟨3, by decide, congrArg Isa.State.pc h3⟩, ⟨4, by decide, congrArg Isa.State.pc h4⟩,
      ⟨5, by decide, congrArg Isa.State.pc h5⟩, ⟨6, by decide, congrArg Isa.State.pc h6⟩,
      ⟨7, by decide, congrArg Isa.State.pc h7⟩]
  · rw [h8]
    exact ⟨rfl, rfl, rfl, rfl, rfl, ⟨hzero, hframe.base, rfl⟩, hloaded, htable⟩

theorem display_rounds (hpc : a.pc = 137) (hframe : Frame 74 ret a.reg) (hloaded : Loaded k a.mem)
    (htable : ∀ j, j < 16 → a.mem (BitVec.ofNat 10 (74 + j)) = t j) {i : Nat} (hi : i ≤ 16) :
    Stays code 137 y a (9 * i + 8) ∧ Showing k ret t i (run next y a (9 * i + 8)) := by
  induction i with
  | zero => exact display_start y hpc hframe hloaded htable
  | succ i ih =>
      have hindex : 9 * (i + 1) + 8 = 9 * i + 8 + 9 := by omega
      obtain ⟨hstays, hshowing⟩ := ih (Nat.le_of_succ_le hi)
      have hround := (display_round (fun j => y (9 * i + 8 + j)) hi hshowing).2
      rw [hindex, run_add]
      exact ⟨hstays.trans hround.1, hround.2⟩

/-- The function has returned, with the table as it was. -/
structure Displayed (ret : Word) (t : Nat → Word) (b : Isa.State) : Prop where
  pc : b.pc = ret
  frame : Frame 74 ret b.reg
  loaded : Loaded 16 b.mem
  table : ∀ j, j < 16 → b.mem (BitVec.ofNat 10 (74 + j)) = t j

/-- Sixteen times the function shows a word of the table and pauses. -/
theorem display_run (hpc : a.pc = 137) (hframe : Frame 74 ret a.reg) (hloaded : Loaded k a.mem)
    (htable : ∀ j, j < 16 → a.mem (BitVec.ofNat 10 (74 + j)) = t j) :
    (∀ i, i < 16 → Shows k t i (run next y a (9 * i + 11))) ∧ Stays code 137 y a 153 ∧
      Displayed ret t (run next y a 153) := by
  obtain ⟨hstays, hshowing⟩ := display_rounds y hpc hframe hloaded htable le_rfl
  refine ⟨fun i hi => ?_, hstays.trans (stays_one (l := 17) (by decide) hshowing.pc), ?_⟩
  · have hindex : 9 * i + 11 = 9 * i + 8 + 3 := rfl
    rw [hindex, run_add]
    exact (display_round _ hi (display_rounds y hpc hframe hloaded htable hi.le).2).1
  · obtain ⟨hpc', -, -, -, -, hframe', hloaded', htable'⟩ := hshowing
    have hindex : 153 = 9 * 16 + 8 + 1 := rfl
    rw [hindex, run_succ]
    generalize run next y a (9 * 16 + 8) = b at *
    obtain ⟨reg, pc, nzp, mem, hex⟩ := b
    obtain rfl : pc = line 137 17 := hpc'
    rw [next_jump (display_code hloaded') code_length _ rfl hframe'.link]
    exact ⟨rfl, hframe', hloaded', htable'⟩

end Round

end ECE385.SLC3.DisplayFunction
