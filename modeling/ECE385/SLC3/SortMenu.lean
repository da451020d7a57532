import Mathlib.Data.List.Sort
import ECE385.SLC3.DisplayFunction
import ECE385.SLC3.EntryFunction

namespace ECE385.SLC3.SortMenu

open Clocked.Machine (run run_zero run_add run_succ FirstReturn)
open Execution
open Isa (Instr Reg Word)
open SortFunction (Frame words)
open SortProgram (Loaded Signed)
open Stepping

section Abstract

def ascending (t : List Word) : List Word := t.mergeSort fun v w => v.toNat ≤ w.toNat

theorem ascending_eq {t u : List Word} (hperm : u.Perm t) (hsorted : u.Pairwise fun v w => v.toNat ≤ w.toNat) :
    u = ascending t := by
  have hsorted' : (ascending t).Pairwise fun v w => v.toNat ≤ w.toNat := by
    have h := @List.pairwise_mergeSort Word (fun v w => decide (v.toNat ≤ w.toNat))
      (fun a b c hab hbc => decide_eq_true ((of_decide_eq_true hab).trans (of_decide_eq_true hbc)))
      (fun a b => by simpa using Nat.le_total a.toNat b.toNat) t
    exact h.imp of_decide_eq_true
  refine List.Perm.eq_of_pairwise (fun v w _ _ hvw hwv => ?_) hsorted hsorted'
    (hperm.trans (List.mergeSort_perm t _).symm)
  exact BitVec.eq_of_toNat_eq (Nat.le_antisymm hvw hwv)

/-- What a selection makes of the table: 1 enters it anew, 2 sorts it. -/
def select (sw : BitVec 10) (entered t : List Word) : List Word :=
  if sw = 1 then entered else if sw = 2 then ascending t else t

end Abstract

def code : List Instr :=
  [ .and 0 0 (.imm 0), .jsr 7 0, .add 6 7 (.imm (-16)), .add 6 6 (.imm (-2)), .pse, .ldr 1 0 (-1), .br 0b010 (-3),
    .add 1 1 (.imm (-1)), .br 0b101 2, .jsr 7 9, .br 0b111 (-7), .add 1 1 (.imm (-1)), .br 0b101 2, .jsr 7 15,
    .br 0b111 (-11), .add 1 1 (.imm (-1)), .br 0b101 (-13), .jsr 7 29, .br 0b111 (-15) ]

theorem decode_sortMenu : Instantiateram.sortMenu.map Isa.decode = code := by decide

theorem menu_code {k : Nat} {mem : BitVec 10 → Word} (h : Loaded k mem) : Code code 90 mem :=
  decode_sortMenu ▸ h.menu.code

theorem code_length : 90 + code.length ≤ 1024 := by decide

theorem zero_taken (v : Word) : 0b010#3 &&& Isa.conditionCodes v ≠ 0 ↔ v = 0 := by
  rw [Isa.conditionCodes]
  split
  next h => exact iff_of_true (by decide) h
  next h => split <;> exact iff_of_false (by decide) h

theorem nonzero_taken (v : Word) : 0b101#3 &&& Isa.conditionCodes v ≠ 0 ↔ v ≠ 0 := by
  rw [Isa.conditionCodes]
  split
  next h => exact iff_of_false (by decide) (not_not.mpr h)
  next h => split <;> exact iff_of_true (by decide) h

/-- What is left of a selection after `c` decrements. -/
def remaining (sw : BitVec 10) (c : Nat) : Word := sw.setWidth 16 - BitVec.ofNat 16 c

theorem remaining_zero {sw : BitVec 10} {c : Nat} (hc : c < 1024) : remaining sw c = 0 ↔ sw = BitVec.ofNat 10 c := by
  rw [remaining, sub_eq_zero, ← BitVec.toNat_inj, ← BitVec.toNat_inj, BitVec.toNat_setWidth, BitVec.toNat_ofNat,
    BitVec.toNat_ofNat]
  omega

theorem remaining_succ (sw : BitVec 10) (c : Nat) : remaining sw c + (-1) = remaining sw (c + 1) := by
  rw [remaining, remaining, BitVec.ofNat_add, ← sub_sub]
  exact (sub_eq_add_neg _ _).symm

/-- What every line of the menu may rely on. -/
structure Kept (k : Nat) (t : List Word) (a : Isa.State) : Prop where
  frame : Frame 74 (a.reg 7) a.reg
  loaded : Loaded k a.mem
  table : words 74 a.mem = t
  signed : Signed a

/-- At line `l` of the menu, with `c` decrements of the selection made. -/
structure Stage (k : Nat) (t : List Word) (l c : Nat) (sw : BitVec 10) (a : Isa.State) : Prop extends Kept k t a where
  pc : a.pc = line 90 l
  count : a.reg 1 = remaining sw c

/-- On the way through its first `n` instructions the run does not come to the menu. -/
def Away (y : Nat → Switches) (a : Isa.State) (n : Nat) : Prop :=
  ∀ m, 0 < m → m < n → (run next y a m).pc ≠ line 90 4

section Away

variable {y : Nat → Switches} {a : Isa.State} {m n : Nat}

theorem away_one : Away y a 1 := fun _ hpos hlt => absurd hpos (Nat.not_lt.mpr (Nat.le_of_lt_succ hlt))

theorem Away.trans (hm : Away y a m) (hpc : (run next y a m).pc ≠ line 90 4)
    (hn : Away (fun j => y (m + j)) (run next y a m) n) : Away y a (m + n) := by
  intro j hpos hlt
  rcases Nat.lt_trichotomy j m with hj | rfl | hj
  · exact hm j hpos hj
  · exact hpc
  · obtain ⟨i, rfl⟩ := Nat.exists_eq_add_of_le hj.le
    rw [run_add]
    exact hn i (Nat.pos_of_lt_add_right hj) (Nat.lt_of_add_lt_add_left hlt)

/-- The functions lie behind the menu. -/
theorem away_of_stays {code : List Instr} {base : Nat} (h : Stays code base y a n) (hbase : 94 < base)
    (hend : base + code.length ≤ 1024) : Away y a n := by
  intro j _ hlt heq
  obtain ⟨l, hl, hpc⟩ := h j hlt
  have hvalue := congrArg BitVec.toNat (hpc.symm.trans heq)
  rw [line, line, BitVec.toNat_ofNat, BitVec.toNat_ofNat] at hvalue
  omega

theorem Away.returns (h : Away y a n) (hpos : 0 < n) (hpc : (run next y a n).pc = line 90 4) :
    FirstReturn next y a (fun b => b.pc = line 90 4) n := ⟨hpos, hpc, h⟩

end Away

section Stages

variable {k l c : Nat} {t : List Word} {sw : BitVec 10} {a : Isa.State} (y : Nat → Switches)

/-- Zero leads straight back to the menu. -/
theorem read_stage (h : Kept k t a) (hpc : a.pc = line 90 4) :
    Away y a 3 ∧ Stage k t (if (y 1).2 = 0 then 4 else 7) 0 (y 1).2 (run next y a 3) := by
  have hsigned := SortProgram.signed_run y h.signed 3
  obtain ⟨reg, pc, nzp, mem, hex⟩ := a
  obtain rfl : pc = line 90 4 := hpc
  have hcode := menu_code h.loaded
  have hvalue : (y 1).2.setWidth 16 = remaining (y 1).2 0 := (BitVec.sub_zero _).symm
  have hzero : 0b010#3 &&& Isa.conditionCodes ((y 1).2.setWidth 16) ≠ 0 ↔ (y 1).2 = 0 := by
    rw [zero_taken, hvalue]
    exact remaining_zero (by decide)
  have h1 := run_next (run_zero next y ⟨reg, line 90 4, nzp, mem, hex⟩) (next_pause hcode code_length (y 0) rfl)
  have h2 := run_next h1 (next_switches hcode code_length (y 1) rfl h.frame.zero)
  have h3 := run_next h2 (next_decision hcode code_length (y 2) (l := 4) rfl hzero rfl)
  rw [h3] at hsigned ⊢
  refine ⟨fun m hpos hlt => ?_, ⟨⟨h.frame.zero, h.frame.base, rfl⟩, h.loaded, h.table, hsigned⟩, rfl, hvalue⟩
  interval_cases m
  · rw [h1]
    exact (by decide : line 90 5 ≠ line 90 4)
  · rw [h2]
    exact (by decide : line 90 6 ≠ line 90 4)

/-- The selection is counted down and compared with zero. -/
theorem test_stage {m : Nat} {offset : Word} (h : Stage k t l c sw a) (hdec : code[l]? = some (.add 1 1 (.imm (-1))))
    (hbr : code[l + 1]? = some (.br 0b101 offset)) (hm : line 90 (l + 1 + 1) + offset = line 90 m)
    (haway : line 90 (l + 1) ≠ line 90 4) (hc : c + 1 < 1024) :
    Away y a 2 ∧ Stage k t (if sw ≠ BitVec.ofNat 10 (c + 1) then m else l + 2) (c + 1) sw (run next y a 2) := by
  have hsigned := SortProgram.signed_run y h.signed 2
  obtain ⟨reg, pc, nzp, mem, hex⟩ := a
  obtain rfl : pc = line 90 l := h.pc
  have hcode := menu_code h.loaded
  have hdown : reg 1 + (-1) = remaining sw (c + 1) := (congrArg (· + -1) h.count).trans (remaining_succ sw c)
  have hnonzero : 0b101#3 &&& Isa.conditionCodes (remaining sw (c + 1)) ≠ 0 ↔ sw ≠ BitVec.ofNat 10 (c + 1) :=
    (nonzero_taken _).trans (not_congr (remaining_zero hc))
  have h1 := run_next (run_zero next y ⟨reg, line 90 l, nzp, mem, hex⟩)
    (next_compute hcode code_length (y 0) hdec rfl hdown)
  have h2 := run_next h1 (next_decision hcode code_length (y 1) hbr hnonzero hm)
  rw [h2] at hsigned ⊢
  refine ⟨fun m hpos hlt => ?_, ⟨⟨h.frame.zero, h.frame.base, rfl⟩, h.loaded, h.table, hsigned⟩, rfl, rfl⟩
  obtain rfl : m = 1 := by omega
  rw [h1]
  exact haway

/-- A function is called with its return address in R7. -/
structure Called (k : Nat) (t : List Word) (address ret : Word) (a : Isa.State) : Prop where
  pc : a.pc = address
  frame : Frame 74 ret a.reg
  loaded : Loaded k a.mem
  table : words 74 a.mem = t
  signed : Signed a

theorem call_stage {offset address : Word} (h : Stage k t l c sw a) (hi : code[l]? = some (.jsr 7 offset))
    (haddress : line 90 (l + 1) + offset = address) : Called k t address (line 90 (l + 1)) (run next y a 1) := by
  have hsigned := SortProgram.signed_run y h.signed 1
  obtain ⟨reg, pc, nzp, mem, hex⟩ := a
  obtain rfl : pc = line 90 l := h.pc
  have h1 := run_next (run_zero next y ⟨reg, line 90 l, nzp, mem, hex⟩)
    (next_call (menu_code h.loaded) code_length (y 0) hi haddress)
  rw [h1] at hsigned ⊢
  exact ⟨rfl, ⟨h.frame.zero, h.frame.base, rfl⟩, h.loaded, h.table, hsigned⟩

/-- The line after a call leads back to the menu. -/
theorem return_stage {offset : Word} (h : Called k t (line 90 l) (line 90 l) a)
    (hi : code[l]? = some (.br 0b111 offset)) (hl : line 90 (l + 1) + offset = line 90 4) :
    Kept k t (run next y a 1) ∧ (run next y a 1).pc = line 90 4 := by
  obtain ⟨reg, pc, nzp, mem, hex⟩ := a
  obtain rfl : pc = line 90 l := h.pc
  have h1 := run_next (run_zero next y ⟨reg, line 90 l, nzp, mem, hex⟩)
    (next_branch (menu_code h.loaded) code_length (y 0) hi h.signed hl)
  rw [h1]
  exact ⟨⟨⟨h.frame.zero, h.frame.base, rfl⟩, h.loaded, h.table, h.signed⟩, rfl⟩

end Stages

structure Home (k : Nat) (t : List Word) (a : Isa.State) : Prop extends Kept k t a where
  pc : a.pc = line 90 4
  small : ∀ v ∈ t, v.toNat ≤ 0x3ff

def entered (y : Nat → Switches) : List Word := (List.range 16).map fun j => (y (8 * j + 9)).2.setWidth 16

/-- One selection, with the words that the functions show and ask for. -/
structure Visit (k : Nat) (t : List Word) (y : Nat → Switches) (a : Isa.State) (d : Nat) : Prop where
  returns : FirstReturn next y a (fun b => b.pc = line 90 4) d
  bound : d ≤ 3300
  home : ∃ l, Home l (select (y 1).2 (entered y) t) (run next y a d)
  asks : (y 1).2 = 1 → ∀ j, j < 16 → EntryFunction.Asks j (run next y a (8 * j + 8))
  shows : (y 1).2 = 3 → ∀ i, i < 16 → DisplayFunction.Shows k (fun i => t.getD i 0) i (run next y a (9 * i + 21))

section Visits

variable {k : Nat} {t : List Word} {a : Isa.State} (y : Nat → Switches) (h : Home k t a)

include h

theorem visit_retry (hsw : (y 1).2 = 0) : Visit k t y a 3 := by
  obtain ⟨haway, hstage⟩ := read_stage y h.toKept h.pc
  rw [if_pos hsw] at hstage
  have hselect : select (y 1).2 (entered y) t = t := by
    rw [hsw]
    rfl
  refine ⟨haway.returns (by decide) hstage.pc, by decide, ⟨k, ?_⟩, fun heq => ?_, fun heq => ?_⟩
  · rw [hselect]
    exact ⟨hstage.toKept, hstage.pc, h.small⟩
  · exact absurd (hsw.symm.trans heq) (by decide)
  · exact absurd (hsw.symm.trans heq) (by decide)

theorem first_stage (hzero : (y 1).2 ≠ 0) :
    Away y a 5 ∧ Stage k t (if (y 1).2 ≠ 1 then 11 else 9) 1 (y 1).2 (run next y a 5) := by
  obtain ⟨haway3, h3⟩ := read_stage y h.toKept h.pc
  rw [if_neg hzero] at h3
  obtain ⟨haway5, h5⟩ := test_stage (fun j => y (3 + j)) h3 rfl rfl (m := 11) rfl (by decide) (by decide)
  have hpc : line 90 7 ≠ line 90 4 := by decide
  rw [← run_add] at h5
  exact ⟨haway3.trans (h3.pc ▸ hpc) haway5, h5⟩

theorem second_stage (hzero : (y 1).2 ≠ 0) (hone : (y 1).2 ≠ 1) :
    Away y a 7 ∧ Stage k t (if (y 1).2 ≠ 2 then 15 else 13) 2 (y 1).2 (run next y a 7) := by
  obtain ⟨haway5, h5⟩ := first_stage y h hzero
  rw [if_pos hone] at h5
  obtain ⟨haway7, h7⟩ := test_stage (fun j => y (5 + j)) h5 rfl rfl (m := 15) rfl (by decide) (by decide)
  have hpc : line 90 11 ≠ line 90 4 := by decide
  rw [← run_add] at h7
  exact ⟨haway5.trans (h5.pc ▸ hpc) haway7, h7⟩

theorem third_stage (hzero : (y 1).2 ≠ 0) (hone : (y 1).2 ≠ 1) (htwo : (y 1).2 ≠ 2) :
    Away y a 9 ∧ Stage k t (if (y 1).2 ≠ 3 then 4 else 17) 3 (y 1).2 (run next y a 9) := by
  obtain ⟨haway7, h7⟩ := second_stage y h hzero hone
  rw [if_pos htwo] at h7
  obtain ⟨haway9, h9⟩ := test_stage (fun j => y (7 + j)) h7 rfl rfl (m := 4) rfl (by decide) (by decide)
  have hpc : line 90 15 ≠ line 90 4 := by decide
  rw [← run_add] at h9
  exact ⟨haway7.trans (h7.pc ▸ hpc) haway9, h9⟩

theorem visit_other (hzero : (y 1).2 ≠ 0) (hone : (y 1).2 ≠ 1) (htwo : (y 1).2 ≠ 2) (hthree : (y 1).2 ≠ 3) :
    Visit k t y a 9 := by
  obtain ⟨haway, hstage⟩ := third_stage y h hzero hone htwo
  rw [if_pos hthree] at hstage
  have hselect : select (y 1).2 (entered y) t = t := by rw [select, if_neg hone, if_neg htwo]
  refine ⟨haway.returns (by decide) hstage.pc, by decide, ⟨k, ?_⟩, fun heq => absurd heq hone, fun heq => absurd heq hthree⟩
  rw [hselect]
  exact ⟨hstage.toKept, hstage.pc, h.small⟩

omit h in
/-- From a stage the menu calls a function, which returns to it after `m` lines. -/
theorem call_returns {l c n m : Nat} {sw : BitVec 10} {body : List Instr} {base : Nat} {ret : Word}
    (haway : Away y a n) (hstage : Stage k t l c sw (run next y a n)) (hl : line 90 l ≠ line 90 4)
    (hpc : (run next y a (n + 1)).pc = line base 0) (hbase : 94 < base) (hend : base + body.length ≤ 1024)
    (hstays : Stays body base (fun j => y (n + 1 + j)) (run next y a (n + 1)) m)
    (hret : (run next y a (n + 1 + m)).pc = ret) (hne : ret ≠ line 90 4)
    (hhome : (run next y a (n + 1 + m + 1)).pc = line 90 4) :
    FirstReturn next y a (fun b => b.pc = line 90 4) (n + 1 + m + 1) := by
  have hcall : Away y a (n + 1) := haway.trans (hstage.pc ▸ hl) away_one
  have hfunction : line base 0 ≠ line 90 4 := by
    intro heq
    have hvalue := congrArg BitVec.toNat heq
    rw [line, line, BitVec.toNat_ofNat, BitVec.toNat_ofNat] at hvalue
    omega
  have hbody := hcall.trans (hpc ▸ hfunction) (away_of_stays hstays hbase hend)
  exact (hbody.trans (hret ▸ hne) away_one).returns (Nat.succ_pos _) hhome

theorem visit_entry (hsw : (y 1).2 = 1) : Visit k t y a 137 := by
  have hzero : (y 1).2 ≠ 0 := by
    rw [hsw]
    decide
  obtain ⟨haway, h5⟩ := first_stage y h hzero
  rw [if_neg (not_not.mpr hsw)] at h5
  have h6 : Called k t 109 (line 90 10) (run next (fun j => y (5 + j)) (run next y a 5) 1) := call_stage _ h5 rfl rfl
  rw [← run_add] at h6
  have hread (j : Nat) (_ : j < 16) : (y (6 + (8 * j + 3))).2.setWidth 16 = (y (8 * j + 9)).2.setWidth 16 := by
    rw [Nat.add_comm]
  obtain ⟨hasks, hstays, hentered⟩ := EntryFunction.entry_run (fun j => y (6 + j)) h6.pc h6.frame h6.loaded hread
  have hsigned := SortProgram.signed_run y h.signed 136
  rw [← run_add] at hentered
  have hcalled : Called k (entered y) (line 90 10) (line 90 10) (run next y a 136) :=
    ⟨hentered.pc, hentered.frame, hentered.loaded, hentered.table, hsigned⟩
  have hreturn := return_stage (fun j => y (136 + j)) hcalled rfl rfl
  rw [← run_add] at hreturn
  have hselect : select (y 1).2 (entered y) t = entered y := by rw [select, if_pos hsw]
  have hreturns := call_returns y haway h5 (by decide) h6.pc (by decide) EntryFunction.code_length hstays hcalled.pc
    (by decide) hreturn.2
  refine ⟨hreturns, by decide, ⟨k, ?_⟩, fun _ j hj => ?_, fun heq => ?_⟩
  · rw [hselect]
    refine ⟨hreturn.1, hreturn.2, fun v hv => ?_⟩
    obtain ⟨j, _, rfl⟩ := List.mem_map.mp hv
    rw [BitVec.toNat_setWidth]
    omega
  · have hasked := hasks j hj
    rw [← run_add, Nat.add_comm] at hasked
    exact hasked
  · exact absurd (hsw.symm.trans heq) (by decide)

omit h in
theorem sorted_called {a b : Isa.State} {ret : Word} (h : Called k t 119 ret a) (hsorted : SortFunction.Sorted 74 a b)
    (hsigned : Signed b) : Called k (ascending t) ret ret b := by
  have hkeeps {r : Reg} (hr : r = 0 ∨ r = 6 ∨ r = 7) := hsorted.frame r hr
  refine ⟨hsorted.pc.trans h.frame.link, ⟨(hkeeps (.inl rfl)).trans h.frame.zero,
    (hkeeps (.inr (.inl rfl))).trans h.frame.base, (hkeeps (.inr (.inr rfl))).trans h.frame.link⟩, ?_, ?_, hsigned⟩
  · refine h.loaded.congr fun address hlow _ => hsorted.others address ?_
    omega
  · exact ascending_eq (h.table ▸ hsorted.perm) hsorted.ascending

theorem visit_sort (hsw : (y 1).2 = 2) : ∃ d, Visit k t y a d := by
  have hzero : (y 1).2 ≠ 0 := by
    rw [hsw]
    decide
  have hone : (y 1).2 ≠ 1 := by
    rw [hsw]
    decide
  obtain ⟨haway, h7⟩ := second_stage y h hzero hone
  rw [if_neg (not_not.mpr hsw)] at h7
  have h8 : Called k t 119 (line 90 14) (run next (fun j => y (7 + j)) (run next y a 7) 1) := call_stage _ h7 rfl rfl
  rw [← run_add] at h8
  have hsmall : ∀ v ∈ words 74 (run next y a 8).mem, v.toNat ≤ 0x7fff := by
    rw [h8.table]
    exact fun v hv => (h.small v hv).trans (by decide)
  have hexec := SortFunction.sort_executes (by decide) (.inl (by decide)) h8.loaded.sort h8.pc h8.frame.zero
    h8.frame.base hsmall
  obtain ⟨m, hm, hsorted, hinside⟩ := hexec.on_run fun j => y (8 + j)
  rw [← run_add] at hsorted
  have hcalled := sorted_called h8 hsorted (SortProgram.signed_run y h.signed _)
  have hreturn := return_stage (fun j => y (8 + m + j)) hcalled rfl rfl
  rw [← run_add] at hreturn
  have hselect : select (y 1).2 (entered y) t = ascending t := by rw [select, if_neg hone, if_pos hsw]
  have hreturns := call_returns y haway h7 (by decide) h8.pc (by decide) (by decide) (fun j hj => (hinside j hj).1)
    hcalled.pc (by decide) hreturn.2
  refine ⟨8 + m + 1, hreturns, by omega, ⟨k, ?_⟩, fun heq => absurd heq hone, fun heq => ?_⟩
  · rw [hselect]
    refine ⟨hreturn.1, hreturn.2, fun v hv => ?_⟩
    exact h.small v ((List.mergeSort_perm t _).mem_iff.mp hv)
  · exact absurd (hsw.symm.trans heq) (by decide)

omit h in
theorem words_getD (hwords : words 74 a.mem = t) {j : Nat} (hj : j < 16) :
    a.mem (BitVec.ofNat 10 (74 + j)) = t.getD j 0 := by
  subst hwords
  rw [words, List.getD_eq_getElem?_getD, List.getElem?_map, List.getElem?_range hj]
  rfl

theorem visit_display (hsw : (y 1).2 = 3) : Visit k t y a 164 := by
  have hzero : (y 1).2 ≠ 0 := by
    rw [hsw]
    decide
  have hone : (y 1).2 ≠ 1 := by
    rw [hsw]
    decide
  have htwo : (y 1).2 ≠ 2 := by
    rw [hsw]
    decide
  obtain ⟨haway, h9⟩ := third_stage y h hzero hone htwo
  rw [if_neg (not_not.mpr hsw)] at h9
  have h10 : Called k t 137 (line 90 18) (run next (fun j => y (9 + j)) (run next y a 9) 1) := call_stage _ h9 rfl rfl
  rw [← run_add] at h10
  obtain ⟨hshows, hstays, hdisplayed⟩ := DisplayFunction.display_run (fun j => y (10 + j)) h10.pc h10.frame h10.loaded
    fun j hj => words_getD h10.table hj
  rw [← run_add] at hdisplayed
  have htable : words 74 (run next y a 163).mem = t := by
    rw [← h10.table]
    refine List.map_congr_left fun j hj => ?_
    have hj' := List.mem_range.mp hj
    exact (hdisplayed.table j hj').trans (words_getD h10.table hj').symm
  have hcalled : Called 16 t (line 90 18) (line 90 18) (run next y a 163) :=
    ⟨hdisplayed.pc, hdisplayed.frame, hdisplayed.loaded, htable, SortProgram.signed_run y h.signed 163⟩
  have hreturn := return_stage (fun j => y (163 + j)) hcalled rfl rfl
  rw [← run_add] at hreturn
  have hselect : select (y 1).2 (entered y) t = t := by rw [select, if_neg hone, if_neg htwo]
  have hreturns := call_returns y haway h9 (by decide) h10.pc (by decide) DisplayFunction.code_length hstays hcalled.pc
    (by decide) hreturn.2
  refine ⟨hreturns, by decide, ⟨16, ?_⟩, fun heq => absurd heq hone, fun _ i hi => ?_⟩
  · rw [hselect]
    exact ⟨hreturn.1, hreturn.2, h.small⟩
  · have hshown := hshows i hi
    rw [← run_add, Nat.add_comm] at hshown
    exact hshown

theorem exists_visit : ∃ d, Visit k t y a d := by
  by_cases hzero : (y 1).2 = 0
  · exact ⟨3, visit_retry y h hzero⟩
  by_cases hone : (y 1).2 = 1
  · exact ⟨137, visit_entry y h hone⟩
  by_cases htwo : (y 1).2 = 2
  · exact visit_sort y h htwo
  by_cases hthree : (y 1).2 = 3
  · exact ⟨164, visit_display y h hthree⟩
  · exact ⟨9, visit_other y h hzero hone htwo hthree⟩

end Visits

theorem start_home {a : Isa.State} {t : List Word} (y : Nat → Switches) (hpc : a.pc = 90) (hloaded : Loaded 0 a.mem)
    (htable : words 74 a.mem = t) (hsmall : ∀ v ∈ t, v.toNat ≤ 0x3ff) :
    (∀ n, n < 4 → (run next y a n).pc ≠ line 90 4) ∧ Home 0 t (run next y a 4) := by
  obtain ⟨reg, pc, nzp, mem, hex⟩ := a
  obtain rfl : pc = line 90 0 := hpc
  have hcode := menu_code hloaded
  have hclear : reg 0 &&& 0 = 0 := BitVec.and_zero
  have h1 := run_next (run_zero next y ⟨reg, line 90 0, nzp, mem, hex⟩)
    (next_compute hcode code_length (y 0) rfl rfl hclear)
  have h2 := run_next h1 (next_call hcode code_length (y 1) rfl (BitVec.add_zero _))
  have hbefore : line 90 2 + (-16) = 76 := by decide
  have h3 := run_next h2 (next_compute hcode code_length (y 2) rfl rfl hbefore)
  have hdata : (76 : Word) + (-2) = 74 := by decide
  have h4 := run_next h3 (next_compute hcode code_length (y 3) rfl rfl hdata)
  refine ⟨fun n hn => ?_, ?_⟩
  · have hpc : (run next y ⟨reg, line 90 0, nzp, mem, hex⟩ n).pc = line 90 n := by
      interval_cases n
      exacts [rfl, congrArg Isa.State.pc h1, congrArg Isa.State.pc h2, congrArg Isa.State.pc h3]
    rw [hpc]
    exact fun heq => absurd (line_inj (by omega) (by decide) heq) (Nat.ne_of_lt hn)
  · rw [h4]
    exact ⟨⟨⟨rfl, rfl, rfl⟩, hloaded, htable, conditionCodes_taken _⟩, rfl, hsmall⟩

end ECE385.SLC3.SortMenu
