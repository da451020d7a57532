import ECE385.SLC3.Execution

namespace ECE385.SLC3.Stepping

open Clocked.Machine (run run_zero run_add run_succ)
open Execution
open Isa (Instr Reg Word)

theorem mapped_offset {v : Word} (h : v = 0) : v + (-1) = 0xffff#16 := by
  subst h
  rfl

section Steps

variable {code : List Instr} {base k : Nat} {reg : Reg → Word} {nzp : BitVec 3} {mem : BitVec 10 → Word}
  {hex : Word} (hcode : Code code base mem) (hbase : base + code.length ≤ 1024) (y : Switches)

include hcode hbase

theorem next_compute {i : Instr} {dr : Reg} {u v : Word} (hi : code[k]? = some i)
    (hu : computes ⟨reg, line base (k + 1), nzp, mem, hex⟩ i = some (dr, u)) (huv : u = v) :
    next y ⟨reg, line base k, nzp, mem, hex⟩ =
      ⟨Function.update reg dr v, line base (k + 1), Isa.conditionCodes v, mem, hex⟩ := by
  subst huv
  rw [next_line hcode hbase hi, (exec_computes hu).2]
  rfl

theorem next_pause (hi : code[k]? = some .pse) :
    next y ⟨reg, line base k, nzp, mem, hex⟩ = ⟨reg, line base (k + 1), nzp, mem, hex⟩ :=
  next_line hcode hbase hi y

theorem next_switches {dr r : Reg} (hi : code[k]? = some (.ldr dr r (-1))) (hzero : reg r = 0) :
    next y ⟨reg, line base k, nzp, mem, hex⟩ =
      ⟨Function.update reg dr (y.2.setWidth 16), line base (k + 1), Isa.conditionCodes (y.2.setWidth 16), mem,
        hex⟩ := by
  rw [next_line hcode hbase hi, Instr.exec, mapped_offset hzero, Isa.State.read, if_pos rfl]
  rfl

theorem next_load {dr r : Reg} {offset address v : Word} (hi : code[k]? = some (.ldr dr r offset))
    (haddress : reg r + offset = address) (hne : address ≠ 0xffff#16) (hv : mem (address.setWidth 10) = v) :
    next y ⟨reg, line base k, nzp, mem, hex⟩ =
      ⟨Function.update reg dr v, line base (k + 1), Isa.conditionCodes v, mem, hex⟩ := by
  subst hv
  rw [next_line hcode hbase hi, Instr.exec, haddress, Isa.State.read, if_neg hne]
  rfl

theorem next_store {sr r : Reg} {offset address v : Word} (hi : code[k]? = some (.str sr r offset))
    (haddress : reg r + offset = address) (hne : address ≠ 0xffff#16) (hv : reg sr = v) :
    next y ⟨reg, line base k, nzp, mem, hex⟩ =
      ⟨reg, line base (k + 1), nzp, Function.update mem (address.setWidth 10) v, hex⟩ := by
  subst hv
  rw [next_line hcode hbase hi, Instr.exec, haddress, Isa.State.write, if_neg hne]

theorem next_show {sr r : Reg} {v : Word} (hi : code[k]? = some (.str sr r (-1))) (hzero : reg r = 0)
    (hv : reg sr = v) :
    next y ⟨reg, line base k, nzp, mem, hex⟩ =
      ⟨reg, line base (k + 1), nzp, Function.update mem 1023 v, v⟩ := by
  subst hv
  rw [next_line hcode hbase hi, Instr.exec, mapped_offset hzero, Isa.State.write, if_pos rfl]
  rfl

theorem next_branch {condition : BitVec 3} {offset : Word} {l : Nat} (hi : code[k]? = some (.br condition offset))
    (hnzp : condition &&& nzp ≠ 0) (hl : line base (k + 1) + offset = line base l) :
    next y ⟨reg, line base k, nzp, mem, hex⟩ = ⟨reg, line base l, nzp, mem, hex⟩ := by
  rw [next_line hcode hbase hi, Instr.exec, if_pos hnzp, hl]

theorem next_pass {condition : BitVec 3} {offset : Word} (hi : code[k]? = some (.br condition offset))
    (hnzp : condition &&& nzp = 0) :
    next y ⟨reg, line base k, nzp, mem, hex⟩ = ⟨reg, line base (k + 1), nzp, mem, hex⟩ := by
  rw [next_line hcode hbase hi, Instr.exec, if_neg (not_not.mpr hnzp)]

theorem next_decision {condition : BitVec 3} {offset : Word} {l : Nat} {P : Prop} [Decidable P]
    (hi : code[k]? = some (.br condition offset)) (hP : condition &&& nzp ≠ 0 ↔ P)
    (hl : line base (k + 1) + offset = line base l) :
    next y ⟨reg, line base k, nzp, mem, hex⟩ = ⟨reg, line base (if P then l else k + 1), nzp, mem, hex⟩ := by
  split
  next h => exact next_branch hcode hbase y hi (hP.mpr h) hl
  next h => exact next_pass hcode hbase y hi (not_not.mp (mt hP.mp h))

theorem next_jump {r : Reg} {address : Word} (hi : code[k]? = some (.jmp r)) (haddress : reg r = address) :
    next y ⟨reg, line base k, nzp, mem, hex⟩ = ⟨reg, address, nzp, mem, hex⟩ := by
  subst haddress
  exact next_line hcode hbase hi y

theorem next_call {offset address : Word} (hi : code[k]? = some (.jsr 7 offset))
    (haddress : line base (k + 1) + offset = address) :
    next y ⟨reg, line base k, nzp, mem, hex⟩ =
      ⟨Function.update reg 7 (line base (k + 1)), address, nzp, mem, hex⟩ := by
  subst haddress
  exact next_line hcode hbase hi y

end Steps

theorem run_next {y : Nat → Switches} {a b c : Isa.State} {k : Nat} (h : run next y a k = b)
    (hnext : next (y k) b = c) :
    run next y a (k + 1) = c := by
  rw [run_succ, h, hnext]

/-- The first `n` instructions of the run are lines of the code. -/
def Stays (code : List Instr) (base : Nat) (y : Nat → Switches) (a : Isa.State) (n : Nat) : Prop :=
  ∀ j, j < n → ∃ l, l < code.length ∧ (run next y a j).pc = line base l

section Stays

variable {code : List Instr} {base : Nat} {y : Nat → Switches} {a : Isa.State} {m n : Nat}

theorem stays_one {l : Nat} (hl : l < code.length) (hpc : a.pc = line base l) : Stays code base y a 1 := by
  intro j hj
  obtain rfl := Nat.lt_one_iff.mp hj
  exact ⟨l, hl, hpc⟩

theorem Stays.trans (hm : Stays code base y a m) (hn : Stays code base (fun j => y (m + j)) (run next y a m) n) :
    Stays code base y a (m + n) := by
  intro j hj
  rcases Nat.lt_or_ge j m with hlt | hge
  · exact hm j hlt
  · obtain ⟨i, rfl⟩ := Nat.exists_eq_add_of_le hge
    rw [run_add]
    exact hn i (Nat.lt_of_add_lt_add_left hj)

end Stays

theorem image_update {words : List Word} {base : Nat} {mem : BitVec 10 → Word} (h : Image words base mem)
    (hbase : base + words.length ≤ 1024) {address : BitVec 10}
    (houtside : ¬(base ≤ address.toNat ∧ address.toNat < base + words.length)) (v : Word) :
    Image words base (Function.update mem address v) := by
  intro k w hw
  have hk := (List.getElem?_eq_some_iff.mp hw).1
  have hne : BitVec.ofNat 10 (base + k) ≠ address := by
    rintro rfl
    rw [BitVec.toNat_ofNat, Nat.mod_eq_of_lt (by omega)] at houtside
    omega
  rw [Function.update_of_ne hne]
  exact h k w hw

/-- A word of the code changes together with the memory. -/
theorem image_set {words : List Word} {base i : Nat} {u : Word} {mem : BitVec 10 → Word}
    (h : Image (words.set i u) base mem) (hbase : base + words.length ≤ 1024) (hi : i < words.length) (v : Word) :
    Image (words.set i v) base (Function.update mem (BitVec.ofNat 10 (base + i)) v) := by
  intro k w hw
  have hk := (List.getElem?_eq_some_iff.mp hw).1
  rw [List.length_set] at hk
  rcases eq_or_ne i k with rfl | hne
  · rw [List.getElem?_set_self hi] at hw
    obtain rfl := Option.some.inj hw
    exact Function.update_self ..
  · have hother : BitVec.ofNat 10 (base + k) ≠ BitVec.ofNat 10 (base + i) := by
      intro heq
      have hvalue := congrArg BitVec.toNat heq
      rw [BitVec.toNat_ofNat, BitVec.toNat_ofNat] at hvalue
      omega
    rw [Function.update_of_ne hother]
    rw [List.getElem?_set_ne hne] at hw
    exact h k w ((List.getElem?_set_ne hne).trans hw)

theorem conditionCodes_taken (v : Word) : 0b111#3 &&& Isa.conditionCodes v ≠ 0 := by
  rw [Isa.conditionCodes]
  split
  · decide
  · split <;> decide

end ECE385.SLC3.Stepping
