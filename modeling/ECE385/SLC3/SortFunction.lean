import ECE385.SLC3.Execution
import ECE385.Sorting.Bubble

namespace ECE385.SLC3.SortFunction

open Execution
open Isa (Instr Reg Word)
open Refinement (arch)
open Sorting.Bubble
open SramTop (State Inputs run AtS18)

def code : List Instr :=
  [ .add 1 0 (.imm (-16)), .add 2 0 (.imm 1), .add 3 6 (.reg 2), .ldr 4 3 (-1), .ldr 5 3 0, .not 5 5,
    .add 5 5 (.imm 1), .add 5 4 (.reg 5), .br 0b110 3, .ldr 5 3 0, .str 5 3 (-1), .str 4 3 0,
    .add 2 2 (.imm 1), .add 3 1 (.reg 2), .br 0b100 (-13), .add 1 1 (.imm 1), .br 0b100 (-16), .jmp 7 ]

theorem decode_sortFunction : Instantiateram.sortFunction.map Isa.decode = code := by decide

/-- The memory with the items `f` in the 16 words from `b` on. -/
def table (b : Nat) (f : Nat → Nat) (mem : BitVec 10 → Word) (a : BitVec 10) : Word :=
  if b ≤ a.toNat ∧ a.toNat < b + 16 then BitVec.ofNat 16 (f (a.toNat - b)) else mem a

section Table

variable {b : Nat} {f : Nat → Nat} {mem : BitVec 10 → Word}

theorem table_outside {a : BitVec 10} (ha : ¬(b ≤ a.toNat ∧ a.toNat < b + 16)) : table b f mem a = mem a :=
  if_neg ha

def items (b : Nat) (mem : BitVec 10 → Word) (i : Nat) : Nat := (mem (BitVec.ofNat 10 (b + i))).toNat

theorem table_items : table b (items b mem) mem = mem := by
  funext a
  rw [table]
  split
  · rename_i ha
    rw [items, Nat.add_sub_cancel' ha.1, BitVec.ofNat_toNat, BitVec.ofNat_toNat, BitVec.setWidth_eq,
      BitVec.setWidth_eq]
  · rfl

variable (hb : b + 16 ≤ 1024) {i : Nat} (hi : i < 16)

include hb hi

theorem toNat_item : (BitVec.ofNat 10 (b + i)).toNat = b + i :=
  Nat.mod_eq_of_lt (by omega)

theorem table_item : table b f mem (BitVec.ofNat 10 (b + i)) = BitVec.ofNat 16 (f i) := by
  rw [table, toNat_item hb hi, if_pos ⟨by omega, by omega⟩, Nat.add_sub_cancel_left]

theorem update_table (v : Nat) :
    Function.update (table b f mem) (BitVec.ofNat 10 (b + i)) (BitVec.ofNat 16 v) =
      table b (Function.update f i v) mem := by
  funext a
  have hsame : a = BitVec.ofNat 10 (b + i) ↔ a.toNat = b + i := by
    rw [← BitVec.toNat_inj, toNat_item hb hi]
  rw [Function.update_apply, table, table]
  by_cases ha : a = BitVec.ofNat 10 (b + i)
  · rw [if_pos ha, hsame.mp ha, if_pos ⟨by omega, by omega⟩, Nat.add_sub_cancel_left, Function.update_self]
  · have hne := mt hsame.mpr ha
    rw [if_neg ha]
    split
    · rw [Function.update_of_ne (by omega)]
    · rfl

end Table

theorem code_table {b : Nat} (hdisjoint : b + 16 ≤ 119 ∨ 137 ≤ b) {mem : BitVec 10 → Word}
    (hcode : Code code 119 mem) (f : Nat → Nat) : Code code 119 (table b f mem) := by
  intro k i hi
  obtain ⟨hk, _⟩ := List.getElem?_eq_some_iff.mp hi
  have hlength : code.length = 18 := rfl
  have haddress : (BitVec.ofNat 10 (119 + k)).toNat = 119 + k := Nat.mod_eq_of_lt (by omega)
  rw [table_outside (by omega)]
  exact hcode k i hi

/-- The routine leaves R0, R1, R2, R6 and R7 alone when it compares and exchanges. -/
def Keeps (reg reg' : Reg → Word) : Prop := ∀ r, r ≠ 3 → r ≠ 4 → r ≠ 5 → reg' r = reg r

section Blocks

variable {b l n : Nat} {f : Nat → Nat} {reg : Reg → Word} {nzp : BitVec 3} {mem : BitVec 10 → Word}
  {hex : Word} {Q : Isa.State → Prop} (hb : b + 16 ≤ 1024)
  (hcode : ∀ f, Code code 119 (table b f mem)) (h6 : reg 6 = BitVec.ofNat 16 b)

theorem toInt_difference {v w : Nat} (hv : v < 2 ^ 15) (hw : w < 2 ^ 15) :
    (BitVec.ofNat 16 v - BitVec.ofNat 16 w).toInt = (v : Int) - w := by
  have hsmall {v : Nat} (hv : v < 2 ^ 15) : (BitVec.ofNat 16 v).toInt = v := by
    have hvalue : (BitVec.ofNat 16 v).toNat = v := Nat.mod_eq_of_lt (by omega)
    rw [BitVec.toInt_eq_toNat_of_lt (by omega), hvalue]
  rw [BitVec.toInt_sub, hsmall hv, hsmall hw, Int.bmod_def]
  omega

include hb hcode h6 in
theorem exchange_executes (hl : l + 1 < 16) (h2 : reg 2 = BitVec.ofNat 16 (l + 1))
    (hsmall : f l < 2 ^ 15 ∧ f (l + 1) < 2 ^ 15)
    (h : ∀ reg' nzp', Keeps reg reg' →
      Executes code 119 Q n ⟨reg', line 119 12, nzp', table b (exchange f l) mem, hex⟩) :
    Executes code 119 Q (n + 10) ⟨reg, line 119 2, nzp, table b f mem, hex⟩ := by
  have hlength : 119 + code.length ≤ 1024 := by decide
  have hpointer : reg 6 + reg 2 = line b (l + 1) := by
    rw [h6, h2, ← BitVec.ofNat_add]
    rfl
  have hbelow : line b (l + 1) + (-1) = line b l := by
    rw [← line_succ, BitVec.add_assoc]
    exact BitVec.add_zero _
  have habove : line b (l + 1) + 0 = line b (l + 1) := BitVec.add_zero _
  have hne {i : Nat} (hi : i < 16) : line b i ≠ 0xffff#16 := line_ne_mapped (by omega)
  have hitem {i : Nat} (hi : i < 16) (f : Nat → Nat) :
      table b f mem ((line b i).setWidth 10) = BitVec.ofNat 16 (f i) := by
    rw [setWidth_line, table_item hb hi]
  refine executes_compute (hcode f) hlength rfl rfl hpointer ?_
  refine executes_load (hcode f) hlength rfl hbelow (hne (by omega)) (hitem (by omega) f) ?_
  refine executes_load (hcode f) hlength rfl habove (hne hl) (hitem hl f) ?_
  refine executes_compute (hcode f) hlength rfl rfl (v := ~~~BitVec.ofNat 16 (f (l + 1))) rfl ?_
  refine executes_compute (hcode f) hlength rfl rfl (v := -BitVec.ofNat 16 (f (l + 1)))
    (BitVec.neg_eq_not_add _).symm ?_
  refine executes_compute (hcode f) hlength rfl rfl
    (v := BitVec.ofNat 16 (f l) - BitVec.ofNat 16 (f (l + 1))) (BitVec.sub_eq_add_neg _ _).symm ?_
  have hdifference := toInt_difference hsmall.1 hsmall.2
  by_cases hle : f l ≤ f (l + 1)
  · rw [exchange_of_le hle] at h
    refine executes_taken (hcode f) hlength (l := 12) rfl (conditionCodes_nonpos _ (by omega)) rfl ?_
    refine (h _ _ fun r h3 h4 h5 => ?_).mono (Nat.le_add_right ..)
    simp only [Function.update_of_ne h3, Function.update_of_ne h4, Function.update_of_ne h5]
  · have hstored : exchange f l = Function.update (Function.update f l (f (l + 1))) (l + 1) (f l) := by
      rw [exchange_of_lt (not_le.mp hle), Equiv.swap_comm, Equiv.comp_swap_eq_update]
    rw [hstored] at h
    refine executes_untaken (hcode f) hlength rfl ?_ ?_
    · rw [conditionCodes_pos _ (by omega)]
      rfl
    refine executes_load (hcode f) hlength rfl habove (hne hl) (hitem hl f) ?_
    refine executes_store (hcode f) hlength rfl hbelow (hne (by omega)) (v := BitVec.ofNat 16 (f (l + 1))) rfl ?_
    rw [setWidth_line, update_table hb (by omega)]
    refine executes_store (hcode _) hlength rfl habove (hne hl) (v := BitVec.ofNat 16 (f l)) rfl ?_
    rw [setWidth_line, update_table hb hl]
    refine h _ _ fun r h3 h4 h5 => ?_
    simp only [Function.update_of_ne h3, Function.update_of_ne h4, Function.update_of_ne h5]

end Blocks

/-- What a caller relies on. -/
structure Frame (b : Nat) (ret : Word) (reg : Reg → Word) : Prop where
  zero : reg 0 = 0
  base : reg 6 = BitVec.ofNat 16 b
  link : reg 7 = ret

theorem Frame.keeps {b : Nat} {ret : Word} {reg reg' : Reg → Word} (h : Frame b ret reg)
    (hkeeps : Keeps reg reg') : Frame b ret reg' :=
  ⟨(hkeeps 0 (by decide) (by decide) (by decide)).trans h.zero,
    (hkeeps 6 (by decide) (by decide) (by decide)).trans h.base,
    (hkeeps 7 (by decide) (by decide) (by decide)).trans h.link⟩

theorem small_sweep {f : Nat → Nat} (hsmall : ∀ k, k < 16 → f k < 2 ^ 15) {m : Nat} (hm : m < 16) :
    ∀ k, k < 16 → sweep f m k < 2 ^ 15 := by
  intro k hk
  rcases Nat.lt_or_ge m k with h | h
  · rw [sweep_above h]
    exact hsmall k hk
  · obtain ⟨j, hj, heq⟩ := exists_sweep_eq (f := f) h
    rw [heq]
    exact hsmall j (by omega)

theorem Frame.update {b : Nat} {ret : Word} {reg : Reg → Word} (h : Frame b ret reg) {r : Reg} (v : Word)
    (hr : r ≠ 0 ∧ r ≠ 6 ∧ r ≠ 7) : Frame b ret (Function.update reg r v) :=
  ⟨(Function.update_of_ne hr.1.symm ..).trans h.zero, (Function.update_of_ne hr.2.1.symm ..).trans h.base,
    (Function.update_of_ne hr.2.2.symm ..).trans h.link⟩

section Loops

variable {b n : Nat} {ret : Word} {f : Nat → Nat} {reg : Reg → Word} {nzp : BitVec 3}
  {mem : BitVec 10 → Word} {hex : Word} {Q : Isa.State → Prop} (hb : b + 16 ≤ 1024)
  (hcode : ∀ f, Code code 119 (table b f mem))

include hb hcode

theorem round_executes {i l : Nat} (hi : i ≤ 16) (hl : l + 1 < 16) (hsmall : ∀ k, k < 16 → f k < 2 ^ 15)
    (hframe : Frame b ret reg) (h1 : reg 1 = -BitVec.ofNat 16 i) (h2 : reg 2 = BitVec.ofNat 16 (l + 1))
    (hback : l + 2 < i → ∀ reg' nzp', Frame b ret reg' → reg' 1 = -BitVec.ofNat 16 i →
      reg' 2 = BitVec.ofNat 16 (l + 2) →
      Executes code 119 Q n ⟨reg', line 119 2, nzp', table b (exchange f l) mem, hex⟩)
    (hout : i ≤ l + 2 → ∀ reg' nzp', Frame b ret reg' → reg' 1 = -BitVec.ofNat 16 i →
      Executes code 119 Q n ⟨reg', line 119 15, nzp', table b (exchange f l) mem, hex⟩) :
    Executes code 119 Q (n + 13) ⟨reg, line 119 2, nzp, table b f mem, hex⟩ := by
  have hlength : 119 + code.length ≤ 1024 := by decide
  refine exchange_executes (n := n + 3) hb hcode hframe.base hl h2
    ⟨hsmall l (by omega), hsmall (l + 1) hl⟩ fun reg' nzp' hkeeps => ?_
  have hframe' := (hframe.keeps hkeeps).update (r := 2) (BitVec.ofNat 16 (l + 2)) (by decide)
  have h1' := (hkeeps 1 (by decide) (by decide) (by decide)).trans h1
  have h2' := (hkeeps 2 (by decide) (by decide) (by decide)).trans h2
  have hnext : reg' 2 + 1 = BitVec.ofNat 16 (l + 2) := by
    rw [h2']
    exact (BitVec.ofNat_add (l + 1) 1).symm
  have hcompare : reg' 1 + BitVec.ofNat 16 (l + 2) = BitVec.ofNat 16 (l + 2) - BitVec.ofNat 16 i := by
    rw [h1', BitVec.add_comm, BitVec.sub_eq_add_neg]
  have hdifference := toInt_difference (v := l + 2) (w := i) (by omega) (by omega)
  refine executes_compute (hcode _) hlength rfl rfl hnext ?_
  refine executes_compute (hcode _) hlength rfl rfl hcompare ?_
  by_cases hlast : i ≤ l + 2
  · refine executes_untaken (hcode _) hlength rfl ?_ ?_
    · rcases Nat.lt_or_eq_of_le hlast with hlt | rfl
      · rw [conditionCodes_pos _ (by omega)]
        rfl
      · rw [conditionCodes_zero _ (by omega)]
        rfl
    · exact hout hlast _ _ (hframe'.update _ (by decide)) h1'
  · refine executes_taken (hcode _) hlength (l := 2) rfl ?_ rfl ?_
    · rw [conditionCodes_neg _ (by omega)]
      decide
    · exact hback (by omega) _ _ (hframe'.update _ (by decide)) h1' rfl

/-- The inner loop with `r + 1` exchanges to go. It tests at the end, so it makes
one exchange even when `i` is 1. -/
theorem inner_executes {i m : Nat} (hm : m + 1 = max i 2) (hi : i ≤ 16)
    (hsmall : ∀ k, k < 16 → f k < 2 ^ 15)
    (h : ∀ reg' nzp', Frame b ret reg' → reg' 1 = -BitVec.ofNat 16 i →
      Executes code 119 Q n ⟨reg', line 119 15, nzp', table b (sweep f m) mem, hex⟩)
    (r l : Nat) (hl : l + (r + 1) = m) (hframe : Frame b ret reg) (h1 : reg 1 = -BitVec.ofNat 16 i)
    (h2 : reg 2 = BitVec.ofNat 16 (l + 1)) :
    Executes code 119 Q (n + 13 * (r + 1)) ⟨reg, line 119 2, nzp, table b (sweep f l) mem, hex⟩ := by
  induction r generalizing l reg nzp with
  | zero =>
      obtain rfl : m = l + 1 := by omega
      refine round_executes hb hcode hi (by omega) (small_sweep hsmall (by omega)) hframe h1 h2
        (fun hlt => absurd hlt (by omega)) fun _ => h
  | succ r ih =>
      rw [Nat.mul_succ, ← Nat.add_assoc]
      refine round_executes hb hcode hi (by omega) (small_sweep hsmall (by omega)) hframe h1 h2
        (fun _ reg' nzp' hframe' h1' h2' => ?_) fun hge => absurd hge (by omega)
      exact ih (l + 1) (by omega) hframe' h1' h2'

omit hb in
theorem count_executes {i : Nat} (hi : i ≤ 15) (hframe : Frame b ret reg)
    (h1 : reg 1 = -BitVec.ofNat 16 (i + 1))
    (hback : 0 < i → ∀ reg' nzp', Frame b ret reg' → reg' 1 = -BitVec.ofNat 16 i →
      Executes code 119 Q (n + 1) ⟨reg', line 119 1, nzp', table b f mem, hex⟩)
    (hout : i = 0 → ∀ reg' nzp', Frame b ret reg' →
      Executes code 119 Q n ⟨reg', ret, nzp', table b f mem, hex⟩) :
    Executes code 119 Q (n + 3) ⟨reg, line 119 15, nzp, table b f mem, hex⟩ := by
  have hlength : 119 + code.length ≤ 1024 := by decide
  have hframe' := hframe.update (r := 1) (-BitVec.ofNat 16 i) (by decide)
  have hnext : reg 1 + 1 = -BitVec.ofNat 16 i := by
    rw [h1, BitVec.ofNat_add, BitVec.neg_add, BitVec.sub_eq_add_neg, BitVec.add_assoc]
    exact BitVec.add_zero _
  have hdifference := toInt_difference (v := 0) (w := i) (by omega) (by omega)
  rw [BitVec.zero_sub] at hdifference
  refine executes_compute (hcode _) hlength rfl rfl hnext ?_
  rcases Nat.eq_zero_or_pos i with rfl | hpos
  · refine executes_untaken (hcode _) hlength rfl ?_ ?_
    · rw [conditionCodes_zero _ hdifference]
      rfl
    · refine executes_jump (hcode _) hlength rfl ?_
      rw [hframe'.link]
      exact hout rfl _ _ hframe'
  · refine executes_taken (hcode _) hlength (l := 1) rfl ?_ rfl ?_
    · rw [conditionCodes_neg _ (by omega)]
      decide
    · exact hback hpos _ _ hframe' rfl

/-- The outer loop, with `i + 1` rounds to go. -/
theorem outer_executes (i : Nat) (hi : i + 1 ≤ 16) (hsettled : Settled 16 (i + 1) f)
    (hsmall : ∀ k, k < 16 → f k < 2 ^ 15)
    (h : ∀ reg' nzp' g, Frame b ret reg' → (values 16 g).Perm (values 16 f) → Settled 16 1 g →
      Q ⟨reg', ret, nzp', table b g mem, hex⟩)
    (hframe : Frame b ret reg) (h1 : reg 1 = -BitVec.ofNat 16 (i + 1)) :
    Executes code 119 Q (200 * (i + 1)) ⟨reg, line 119 1, nzp, table b f mem, hex⟩ := by
  have hlength : 119 + code.length ≤ 1024 := by decide
  have hone : reg 0 + 1 = BitVec.ofNat 16 1 := by
    rw [hframe.zero]
    rfl
  induction i generalizing f reg nzp with
  | zero =>
      have hsweep : sweep f 1 = f := exchange_settled hsettled (by decide)
      refine (executes_compute (hcode _) hlength rfl rfl hone <|
        inner_executes (i := 1) (m := 1) (n := 3) hb hcode rfl hi hsmall (fun reg' nzp' hframe' h1' => ?_)
          0 0 rfl (hframe.update (r := 2) _ (by decide)) h1 rfl).mono (by decide)
      rw [hsweep]
      exact count_executes hcode (by decide) hframe' h1' (fun hpos => absurd hpos (by decide))
        fun _ reg' nzp' hframe' => .done (h reg' nzp' f hframe' (.refl _) hsettled)
  | succ i ih =>
      have hinner := small_sweep hsmall (m := i + 1) (by omega)
      have hperm := values_sweep (f := f) (n := 16) (m := i + 1) (by omega)
      refine (executes_compute (hcode _) hlength rfl rfl hone <|
        inner_executes (i := i + 2) (m := i + 1) (n := 200 * (i + 1) + 3) hb hcode (by omega) hi hsmall
          (fun reg' nzp' hframe' h1' => ?_) i 0 (by omega) (hframe.update (r := 2) _ (by decide)) h1 rfl).mono (by omega)
      refine count_executes (i := i + 1) hcode (by omega) hframe' h1' (fun _ reg' nzp' hframe' h1' => ?_)
        fun hzero => absurd hzero (Nat.succ_ne_zero i)
      refine (ih (by omega) (settled_sweep hsettled) hinner (fun reg' nzp' g hframe' hg hg' => ?_)
        hframe' h1' ?_).mono (Nat.le_succ _)
      · exact h reg' nzp' g hframe' (hg.trans hperm) hg'
      · rw [hframe'.zero]
        rfl

end Loops

def words (b : Nat) (mem : BitVec 10 → Word) : List Word :=
  (List.range 16).map fun i => mem (BitVec.ofNat 10 (b + i))

theorem words_table {b : Nat} (hb : b + 16 ≤ 1024) (f : Nat → Nat) (mem : BitVec 10 → Word) :
    words b (table b f mem) = (values 16 f).map (BitVec.ofNat 16) := by
  rw [words, values, List.map_map]
  refine List.map_congr_left fun i hi => ?_
  exact table_item hb (List.mem_range.mp hi)

theorem toNat_ofNat_small {v : Nat} (hv : v < 2 ^ 15) : (BitVec.ofNat 16 v).toNat = v :=
  Nat.mod_eq_of_lt (by omega)

/-- The state in which the function returns. -/
structure Sorted (b : Nat) (a a' : Isa.State) : Prop where
  pc : a'.pc = a.reg 7
  perm : (words b a'.mem).Perm (words b a.mem)
  ascending : (words b a'.mem).Pairwise fun v w => v.toNat ≤ w.toNat
  frame : ∀ r, r = 0 ∨ r = 6 ∨ r = 7 → a'.reg r = a.reg r
  others : ∀ address, ¬(b ≤ address.toNat ∧ address.toNat < b + 16) → a'.mem address = a.mem address
  hex : a'.hex = a.hex

theorem sorted_of_settled {b : Nat} {ret : Word} {f g : Nat → Nat} {reg reg' : Reg → Word}
    {pc : Word} {nzp nzp' : BitVec 3} {mem : BitVec 10 → Word} {hex : Word} (hb : b + 16 ≤ 1024)
    (hsmall : ∀ k, k < 16 → f k < 2 ^ 15) (hperm : (values 16 g).Perm (values 16 f))
    (hsettled : Settled 16 1 g) (hframe : Frame b ret reg) (hframe' : Frame b ret reg') :
    Sorted b ⟨reg, pc, nzp, table b f mem, hex⟩ ⟨reg', ret, nzp', table b g mem, hex⟩ := by
  have hless : ∀ v ∈ values 16 g, v < 2 ^ 15 := by
    intro v hv
    obtain ⟨k, hk, rfl⟩ := List.mem_map.mp (hperm.mem_iff.mp hv)
    exact hsmall k (List.mem_range.mp hk)
  refine ⟨hframe.link.symm, ?_, ?_, ?_, ?_, rfl⟩
  · rw [words_table hb, words_table hb]
    exact hperm.map _
  · rw [words_table hb, List.pairwise_map]
    refine (values_sorted hsettled).imp_of_mem fun hv hw hle => ?_
    rw [toNat_ofNat_small (hless _ hv), toNat_ofNat_small (hless _ hw)]
    exact hle
  · rintro r (rfl | rfl | rfl)
    · exact hframe'.zero.trans hframe.zero.symm
    · exact hframe'.base.trans hframe.base.symm
    · exact hframe'.link.trans hframe.link.symm
  · intro address haddress
    exact (table_outside haddress).trans (table_outside haddress).symm

theorem sort_executes {b : Nat} (hb : b + 16 ≤ 1024) (hdisjoint : b + 16 ≤ 119 ∨ 137 ≤ b) {a : Isa.State}
    (hcode : Image Instantiateram.sortFunction 119 a.mem) (hpc : a.pc = 119) (h0 : a.reg 0 = 0)
    (h6 : a.reg 6 = BitVec.ofNat 16 b) (hdata : ∀ v ∈ words b a.mem, v.toNat ≤ 0x7fff) :
    Executes code 119 (Sorted b a) 3201 a := by
  obtain ⟨reg, pc, nzp, mem, hex⟩ := a
  obtain rfl : pc = line 119 0 := hpc
  have hdecoded : Code code 119 mem := decode_sortFunction ▸ hcode.code
  have hframe : Frame b (reg 7) reg := ⟨h0, h6, rfl⟩
  have hlength : 119 + code.length ≤ 1024 := by decide
  have hsmall (k : Nat) (hk : k < 16) : items b mem k < 2 ^ 15 := by
    have hle := hdata _ (List.mem_map_of_mem (List.mem_range.mpr hk))
    exact Nat.lt_of_le_of_lt hle (by decide)
  have hstart : reg 0 + (-16) = -BitVec.ofNat 16 16 := by
    rw [hframe.zero]
    rfl
  have htable : table b (items b mem) mem = mem := table_items
  rw [← htable]
  refine executes_compute (code_table hdisjoint hdecoded _) hlength rfl rfl hstart ?_
  refine outer_executes hb (code_table hdisjoint hdecoded) 15 le_rfl (settled_all _) hsmall
    (fun reg' nzp' g hframe' hperm hsettled => ?_) (hframe.update (r := 1) _ (by decide)) rfl
  exact sorted_of_settled hb hsmall hperm hsettled hframe hframe'

/-- From its first line the sort function reaches its return address, with the
16 words in order and nothing else changed. -/
theorem sort_routine_sorts (x : Nat → Inputs) (s : State) (b : Nat) (hb : b + 16 ≤ 1024)
    (hdisjoint : b + 16 ≤ 119 ∨ 137 ≤ b) (hfetch : AtS18 s) (hlow : ∀ n, (run x s n).resetAh = false)
    (hidle : s.weSelect = false) (hcode : Image Instantiateram.sortFunction 119 (arch s).mem)
    (hpc : (arch s).pc = 119) (h0 : (arch s).reg 0 = 0) (h6 : (arch s).reg 6 = BitVec.ofNat 16 b)
    (hdata : ∀ v ∈ words b (arch s).mem, v.toNat ≤ 0x7fff) :
    ∃ n, AtS18 (run x s n) ∧ Sorted b (arch s) (arch (run x s n)) := by
  have hexec := sort_executes hb hdisjoint hcode hpc h0 h6 hdata
  obtain ⟨n, _, harrived, _, hsorted⟩ := hexec.on_machine hfetch hlow hidle
  exact ⟨n, harrived, hsorted⟩

/-- The image in memory and the processor called to sort its data. -/
def called : State :=
  { SramTop.settled fun a => Instantiateram.data (a.setWidth 16) with
    slc := ⟨.s18, ⟨Function.update (Function.update (fun _ => 0) 6 74) 7 104, 119, 0, 0, 0, 0, false, 0⟩, 0⟩ }

theorem sort_routine_sorts_data :
    ∃ n, (arch (run (fun _ => SramTop.handsOff 0) called n)).pc = 104 ∧
      (words 74 (arch (run (fun _ => SramTop.handsOff 0) called n)).mem).Pairwise
        fun v w => v.toNat ≤ w.toNat := by
  have hlow (n : Nat) : (run (fun _ => SramTop.handsOff 0) called n).resetAh = false := by
    cases n <;> rfl
  have hcode : Image Instantiateram.sortFunction 119 (arch called).mem := .of_eq (by decide +kernel)
  have hsmall : (words 74 (arch called).mem).all (fun v => decide (v.toNat ≤ 0x7fff)) = true := by
    decide +kernel
  obtain ⟨n, _, hsorted⟩ := sort_routine_sorts (fun _ => SramTop.handsOff 0) called 74 (by decide)
    (by decide) rfl hlow rfl hcode rfl rfl rfl fun v hv => of_decide_eq_true (List.all_eq_true.mp hsmall v hv)
  exact ⟨n, hsorted.pc, hsorted.ascending⟩

end ECE385.SLC3.SortFunction
