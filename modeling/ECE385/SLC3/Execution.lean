import ECE385.Clocked.Progress
import ECE385.SLC3.Program

namespace ECE385.SLC3.Execution

open Clocked.Machine (run_add)
open Clocked.Progress (Within)
open Isa (Instr Reg Word)
open Refinement (arch)
open SramTop (Inputs run AtS18)

/-- The switches that the fetch and the load of one instruction see. -/
abbrev Switches := BitVec 10 × BitVec 10

def next (i : Switches) (a : Isa.State) : Isa.State := a.next i.1 i.2

/-- The words from `base` on decode to `code`. -/
def Code (code : List Instr) (base : Nat) (mem : BitVec 10 → Word) : Prop :=
  ∀ (k : Nat) (i : Instr), code[k]? = some i → Isa.decode (mem (BitVec.ofNat 10 (base + k))) = i

/-- The words from `base` on are `words`. -/
def Image (words : List Word) (base : Nat) (mem : BitVec 10 → Word) : Prop :=
  ∀ (k : Nat) (v : Word), words[k]? = some v → mem (BitVec.ofNat 10 (base + k)) = v

theorem Image.of_eq {words : List Word} {base : Nat} {mem : BitVec 10 → Word}
    (h : (List.range words.length).map (fun k => mem (BitVec.ofNat 10 (base + k))) = words) :
    Image words base mem := by
  intro k v hv
  obtain ⟨hk, _⟩ := List.getElem?_eq_some_iff.mp hv
  rw [← h, List.getElem?_map, List.getElem?_range hk] at hv
  exact Option.some.inj hv

theorem Image.code {words : List Word} {base : Nat} {mem : BitVec 10 → Word} (h : Image words base mem) :
    Code (words.map Isa.decode) base mem := by
  intro k i hi
  rw [List.getElem?_map, Option.map_eq_some_iff] at hi
  obtain ⟨v, hv, rfl⟩ := hi
  rw [h k v hv]

section Append

variable {xs ys : List Instr} {base : Nat} {mem : BitVec 10 → Word} (h : Code (xs ++ ys) base mem)

include h

theorem Code.left : Code xs base mem := by
  intro k i hi
  obtain ⟨hk, _⟩ := List.getElem?_eq_some_iff.mp hi
  exact h k i ((List.getElem?_append_left hk).trans hi)

theorem Code.right : Code ys (base + xs.length) mem := by
  intro k i hi
  rw [Nat.add_assoc]
  refine h (xs.length + k) i ?_
  rwa [List.getElem?_append_right (Nat.le_add_right ..), Nat.add_sub_cancel_left]

end Append

def line (base k : Nat) : Word := BitVec.ofNat 16 (base + k)

/-- The processor is at a line of the code and does not pause there. -/
def Inside (code : List Instr) (base : Nat) (a : Isa.State) : Prop :=
  (∃ k, k < code.length ∧ a.pc = line base k) ∧ ∀ sw, Isa.decode (a.fetch sw) ≠ .pse

/-- From `a` the processor gets into `Q` within `n` instructions, all of them
lines of the code and none a PSE. -/
abbrev Executes (code : List Instr) (base : Nat) (Q : Isa.State → Prop) (n : Nat) (a : Isa.State) : Prop :=
  Within next (Inside code base) Q n a

theorem Executes.embed {xs ys zs : List Instr} {base n : Nat} {Q : Isa.State → Prop} {a : Isa.State}
    (h : Executes ys (base + xs.length) Q n a) : Executes (xs ++ ys ++ zs) base Q n a := by
  refine h.weaken fun b hb => ?_
  obtain ⟨⟨k, hk, hpc⟩, hpse⟩ := hb
  refine ⟨⟨xs.length + k, ?_, by rw [hpc, line, line, Nat.add_assoc]⟩, hpse⟩
  rw [List.length_append, List.length_append]
  omega

section Machine

variable {x : Nat → Inputs} {s : SramTop.State} {code : List Instr} {base n : Nat}
  {Q : Isa.State → Prop}

theorem Executes.on_machine (h : Executes code base Q n (arch s)) (hfetch : AtS18 s)
    (hlow : ∀ m, (run x s m).resetAh = false) (hidle : s.weSelect = false) :
    ∃ t, t ≤ 11 * n ∧ AtS18 (run x s t) ∧ (run x s t).weSelect = false ∧ Q (arch (run x s t)) := by
  induction n generalizing x s with
  | zero => exact ⟨0, Nat.zero_le _, hfetch, hidle, h⟩
  | succ n ih =>
      rcases h with h | ⟨hproceeds, h⟩
      · exact ⟨0, Nat.zero_le _, hfetch, hidle, h⟩
      · obtain ⟨d, hd, hreturn⟩ := Refinement.exists_return hlow hidle hfetch (hproceeds.2 _)
        have hidle' := Refinement.weSelect_run (fun m _ => hlow m) hidle d (Nat.lt_succ_self d)
        have hlow' (m : Nat) : (run (fun j => x (d + j)) (run x s d) m).resetAh = false := by
          rw [run, ← run_add]
          exact hlow _
        have harch := Refinement.arch_at_return (fun m _ => hlow m) hidle hfetch hreturn
        have hrest : Executes code base Q n (arch (run x s d)) := by
          rw [harch]
          exact h ((x 3).sw, (x 9).sw)
        obtain ⟨t, ht, hrun⟩ := ih hrest hreturn.arrived hlow' hidle'
        rw [run, ← run_add] at hrun
        exact ⟨d + t, by omega, hrun⟩

end Machine

/-- The register that an instruction of the ALU sets, with its new value. -/
def computes (a : Isa.State) : Instr → Option (Reg × Word)
  | .add dr sr1 op => some (dr, a.reg sr1 + op.value a)
  | .and dr sr1 op => some (dr, a.reg sr1 &&& op.value a)
  | .not dr sr => some (dr, ~~~a.reg sr)
  | _ => none

theorem exec_computes {a : Isa.State} {i : Instr} {dr : Reg} {v : Word} (h : computes a i = some (dr, v)) :
    i ≠ .pse ∧ ∀ sw, i.exec sw a = a.result dr v := by
  cases i with
  | add | and | not =>
      obtain ⟨rfl, rfl⟩ := Prod.mk.inj (Option.some.inj h)
      exact ⟨Instr.noConfusion, fun _ => rfl⟩
  | _ => cases h

theorem line_ne_mapped {base k : Nat} (h : base + k < 1024) : line base k ≠ 0xffff#16 := by
  intro heq
  have hvalue := congrArg BitVec.toNat heq
  rw [line, BitVec.toNat_ofNat, Nat.mod_eq_of_lt (by omega)] at hvalue
  have hmax : (0xffff#16).toNat = 65535 := rfl
  omega

theorem line_inj {base k l : Nat} (hk : base + k < 1024) (hl : base + l < 1024) (h : line base k = line base l) :
    k = l := by
  have hvalue := congrArg BitVec.toNat h
  rw [line, line, BitVec.toNat_ofNat, BitVec.toNat_ofNat, Nat.mod_eq_of_lt (by omega),
    Nat.mod_eq_of_lt (by omega)] at hvalue
  exact Nat.add_left_cancel hvalue

theorem setWidth_line (base k : Nat) : (line base k).setWidth 10 = BitVec.ofNat 10 (base + k) :=
  BitVec.setWidth_ofNat_of_le (by decide) _

theorem line_succ (base k : Nat) : line base k + 1 = line base (k + 1) := by
  rw [line, line, ← Nat.add_assoc, BitVec.ofNat_add (base + k)]
  rfl

section Rules

variable {code : List Instr} {base k n : Nat} {reg : Reg → Word} {nzp : BitVec 3}
  {mem : BitVec 10 → Word} {hex : Word} {i : Instr} {Q : Isa.State → Prop}
  (hcode : Code code base mem) (hbase : base + code.length ≤ 1024) (hi : code[k]? = some i)

include hcode hbase hi

theorem fetch_line (sw : BitVec 10) :
    Isa.decode (Isa.State.fetch ⟨reg, line base k, nzp, mem, hex⟩ sw) = i := by
  obtain ⟨hk, _⟩ := List.getElem?_eq_some_iff.mp hi
  rw [Isa.State.fetch, Isa.State.read, if_neg (line_ne_mapped (by omega)), setWidth_line]
  exact hcode k i hi

theorem next_line (y : Switches) :
    next y ⟨reg, line base k, nzp, mem, hex⟩ = i.exec y.2 ⟨reg, line base (k + 1), nzp, mem, hex⟩ := by
  rw [next, Isa.State.next, fetch_line hcode hbase hi, line_succ]

theorem executes_step (hpse : i ≠ .pse)
    (h : ∀ sw, Executes code base Q n (i.exec sw ⟨reg, line base (k + 1), nzp, mem, hex⟩)) :
    Executes code base Q (n + 1) ⟨reg, line base k, nzp, mem, hex⟩ := by
  refine .step ⟨⟨k, (List.getElem?_eq_some_iff.mp hi).1, rfl⟩, fun sw => ?_⟩ fun sw => ?_
  · rw [fetch_line hcode hbase hi]
    exact hpse
  · rw [next_line hcode hbase hi]
    exact h sw.2

theorem executes_compute {dr : Reg} {u v : Word}
    (hu : computes ⟨reg, line base (k + 1), nzp, mem, hex⟩ i = some (dr, u)) (huv : u = v)
    (h : Executes code base Q n
      ⟨Function.update reg dr v, line base (k + 1), Isa.conditionCodes v, mem, hex⟩) :
    Executes code base Q (n + 1) ⟨reg, line base k, nzp, mem, hex⟩ := by
  subst huv
  refine executes_step hcode hbase hi (exec_computes hu).1 fun sw => ?_
  rw [(exec_computes hu).2]
  exact h

end Rules

section Control

variable {code : List Instr} {base k n : Nat} {reg : Reg → Word} {nzp : BitVec 3}
  {mem : BitVec 10 → Word} {hex : Word} {Q : Isa.State → Prop}
  (hcode : Code code base mem) (hbase : base + code.length ≤ 1024)

include hcode hbase

theorem executes_load {dr r : Reg} {offset address v : Word} (hi : code[k]? = some (.ldr dr r offset))
    (haddress : reg r + offset = address) (hne : address ≠ 0xffff#16) (hv : mem (address.setWidth 10) = v)
    (h : Executes code base Q n
      ⟨Function.update reg dr v, line base (k + 1), Isa.conditionCodes v, mem, hex⟩) :
    Executes code base Q (n + 1) ⟨reg, line base k, nzp, mem, hex⟩ := by
  subst hv
  refine executes_step hcode hbase hi Instr.noConfusion fun sw => ?_
  rw [Instr.exec, haddress, Isa.State.read, if_neg hne]
  exact h

theorem executes_store {sr r : Reg} {offset address v : Word} (hi : code[k]? = some (.str sr r offset))
    (haddress : reg r + offset = address) (hne : address ≠ 0xffff#16) (hv : reg sr = v)
    (h : Executes code base Q n
      ⟨reg, line base (k + 1), nzp, Function.update mem (address.setWidth 10) v, hex⟩) :
    Executes code base Q (n + 1) ⟨reg, line base k, nzp, mem, hex⟩ := by
  subst hv
  refine executes_step hcode hbase hi Instr.noConfusion fun sw => ?_
  rw [Instr.exec, haddress, Isa.State.write, if_neg hne]
  exact h

theorem executes_display {sr r : Reg} {offset v : Word} (hi : code[k]? = some (.str sr r offset))
    (haddress : reg r + offset = 0xffff#16) (hv : reg sr = v)
    (h : Executes code base Q n
      ⟨reg, line base (k + 1), nzp, Function.update mem 1023 v, v⟩) :
    Executes code base Q (n + 1) ⟨reg, line base k, nzp, mem, hex⟩ := by
  subst hv
  refine executes_step hcode hbase hi Instr.noConfusion fun sw => ?_
  rw [Instr.exec, haddress, Isa.State.write, if_pos rfl]
  exact h

theorem executes_taken {condition : BitVec 3} {offset : Word} {l : Nat}
    (hi : code[k]? = some (.br condition offset)) (hnzp : condition &&& nzp ≠ 0)
    (hl : line base (k + 1) + offset = line base l) (h : Executes code base Q n ⟨reg, line base l, nzp, mem, hex⟩) :
    Executes code base Q (n + 1) ⟨reg, line base k, nzp, mem, hex⟩ := by
  refine executes_step hcode hbase hi Instr.noConfusion fun sw => ?_
  rw [Instr.exec, if_pos hnzp, hl]
  exact h

theorem executes_untaken {condition : BitVec 3} {offset : Word}
    (hi : code[k]? = some (.br condition offset)) (hnzp : condition &&& nzp = 0)
    (h : Executes code base Q n ⟨reg, line base (k + 1), nzp, mem, hex⟩) :
    Executes code base Q (n + 1) ⟨reg, line base k, nzp, mem, hex⟩ := by
  refine executes_step hcode hbase hi Instr.noConfusion fun sw => ?_
  rw [Instr.exec, if_neg (not_not.mpr hnzp)]
  exact h

theorem executes_jump {r : Reg} (hi : code[k]? = some (.jmp r))
    (h : Executes code base Q n ⟨reg, reg r, nzp, mem, hex⟩) :
    Executes code base Q (n + 1) ⟨reg, line base k, nzp, mem, hex⟩ :=
  executes_step hcode hbase hi Instr.noConfusion fun _ => h

end Control

section ConditionCodes

variable (v : Word)

theorem conditionCodes_zero (h : v.toInt = 0) : Isa.conditionCodes v = 0b010#3 := by
  obtain rfl : v = 0 := BitVec.eq_of_toInt_eq h
  rfl

theorem conditionCodes_neg (h : v.toInt < 0) : Isa.conditionCodes v = 0b100#3 := by
  have hmsb : v.msb = true := by
    rw [BitVec.msb_eq_toInt]
    exact decide_eq_true h
  have hne : v ≠ 0 := by
    rintro rfl
    exact Int.lt_irrefl 0 h
  rw [Isa.conditionCodes, if_neg hne, if_pos hmsb]

theorem conditionCodes_pos (h : 0 < v.toInt) : Isa.conditionCodes v = 0b001#3 := by
  have hmsb : v.msb ≠ true := by
    rw [BitVec.msb_eq_toInt, ne_eq, decide_eq_true_iff]
    omega
  have hne : v ≠ 0 := by
    rintro rfl
    exact Int.lt_irrefl 0 h
  rw [Isa.conditionCodes, if_neg hne, if_neg hmsb]

theorem conditionCodes_nonpos (h : v.toInt ≤ 0) : 0b110#3 &&& Isa.conditionCodes v ≠ 0 := by
  rcases Int.lt_or_eq_of_le h with h | h
  · rw [conditionCodes_neg v h]
    decide
  · rw [conditionCodes_zero v h]
    decide

end ConditionCodes

end ECE385.SLC3.Execution
