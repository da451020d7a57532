import Mathlib.Tactic.Ring
import ECE385.Arithmetic.TwosComplement
import ECE385.SLC3.Execution

namespace ECE385.SLC3.MultiplierProgram

open Arithmetic.TwosComplement (toInt_div_two_pow toInt_div_sign)
open Clocked.Machine (run_add run_shift)
open Execution
open Isa (Instr Reg Word)
open Program (Arrivals)
open Refinement (arch)
open SramTop (State Inputs run AtS18)

/-- Lines 58 to 70: the loop over the bits of the first operand, and the output. -/
def loop : List Instr :=
  [ .add 5 5 (.reg 5), .and 7 3 (.reg 1), .br 0b010 1, .add 5 5 (.reg 2), .add 4 4 (.imm 0),
    .br 0b001 2, .not 5 5, .add 5 5 (.imm 1), .add 4 4 (.imm 1), .add 1 1 (.reg 1),
    .add 7 4 (.imm (-8)), .br 0b100 (-12), .str 5 0 (-1) ]

theorem mapped_address {v : Word} (h : v = 0) : v + (-1) = 0xffff#16 := by
  subst h
  rfl

/-- The registers in round `c`: the shifted first operand, the second one, the
running total and the mask. -/
structure Round (c : Nat) (u v t : Word) (reg : Reg → Word) : Prop where
  zero : reg 0 = 0
  first : reg 1 = u
  second : reg 2 = v
  mask : reg 3 = 0x80#16
  count : reg 4 = BitVec.ofNat 16 c
  total : reg 5 = t

/-- The running total that round `c` makes of `t`. -/
def accumulate (c : Nat) (bit : Bool) (v t : Word) : Word :=
  if c = 0 then -(t + t + if bit then v else 0) else t + t + if bit then v else 0

section Registers

variable {c : Nat} {u v t : Word} {reg : Reg → Word} (h : Round c u v t reg)

include h

theorem Round.scratch (w : Word) : Round c u v t (Function.update reg 7 w) :=
  ⟨h.zero, h.first, h.second, h.mask, h.count, h.total⟩

theorem Round.setTotal (t' : Word) : Round c u v t' (Function.update reg 5 t') :=
  ⟨h.zero, h.first, h.second, h.mask, h.count, rfl⟩

theorem Round.setCount (c' : Nat) : Round c' u v t (Function.update reg 4 (BitVec.ofNat 16 c')) :=
  ⟨h.zero, h.first, h.second, h.mask, rfl, h.total⟩

theorem Round.setFirst (u' : Word) : Round c u' v t (Function.update reg 1 u') :=
  ⟨h.zero, rfl, h.second, h.mask, h.count, h.total⟩

end Registers

section Blocks

variable {c n : Nat} {u v t : Word} {reg : Reg → Word} {nzp : BitVec 3} {mem : BitVec 10 → Word}
  {hex : Word} {Q : Isa.State → Prop} (hcode : Code loop 58 mem)

include hcode

theorem accumulate_executes (hround : Round c u v t reg)
    (h : ∀ reg' nzp', Round c u v (t + t + if u.getLsbD 7 then v else 0) reg' →
      Executes loop 58 Q n ⟨reg', line 58 4, nzp', mem, hex⟩) :
    Executes loop 58 Q (n + 4) ⟨reg, line 58 0, nzp, mem, hex⟩ := by
  have hlength : 58 + loop.length ≤ 1024 := by decide
  have hdouble : reg 5 + reg 5 = t + t := by rw [hround.total]
  have hround1 := hround.setTotal (t + t)
  have hmask : reg 3 &&& reg 1 = if u.getLsbD 7 then 0x80#16 else 0 := by
    rw [hround.mask, hround.first, BitVec.and_comm]
    exact BitVec.and_twoPow u 7
  refine executes_compute hcode hlength rfl rfl hdouble ?_
  refine executes_compute hcode hlength rfl rfl hmask ?_
  cases hbit : u.getLsbD 7 with
  | true =>
      refine executes_untaken hcode hlength rfl rfl ?_
      have hadd : t + t + reg 2 = t + t + v := by rw [hround.second]
      refine executes_compute hcode hlength rfl rfl hadd ?_
      rw [hbit] at h
      exact h _ _ ((hround1.scratch _).setTotal _)
  | false =>
      refine (executes_taken hcode hlength (l := 4) rfl (by decide) rfl ?_).mono (Nat.le_succ _)
      rw [hbit] at h
      refine h _ _ ?_
      simpa using hround1.scratch _

theorem negate_executes (hc : c ≤ 7) (hround : Round c u v t reg)
    (h : ∀ reg' nzp', Round c u v (if c = 0 then -t else t) reg' →
      Executes loop 58 Q n ⟨reg', line 58 8, nzp', mem, hex⟩) :
    Executes loop 58 Q (n + 4) ⟨reg, line 58 4, nzp, mem, hex⟩ := by
  have hlength : 58 + loop.length ≤ 1024 := by decide
  have hcount : reg 4 + 0 = BitVec.ofNat 16 c := (BitVec.add_zero _).trans hround.count
  have hround1 := hround.setCount c
  refine executes_compute hcode hlength rfl rfl hcount ?_
  rcases Nat.eq_zero_or_pos c with rfl | hpos
  · refine executes_untaken hcode hlength rfl rfl ?_
    have hinvert : ~~~reg 5 = ~~~t := by rw [hround.total]
    refine executes_compute hcode hlength rfl rfl hinvert ?_
    refine executes_compute hcode hlength rfl rfl (BitVec.neg_eq_not_add t).symm ?_
    exact h _ _ ((hround1.setTotal _).setTotal _)
  · have hpositive : 0 < (BitVec.ofNat 16 c).toInt := by
      have hvalue : (BitVec.ofNat 16 c).toNat = c := Nat.mod_eq_of_lt (by omega)
      rw [BitVec.toInt_eq_toNat_of_lt (by omega), hvalue]
      omega
    rw [if_neg (Nat.pos_iff_ne_zero.mp hpos)] at h
    refine (executes_taken hcode hlength (l := 8) rfl ?_ rfl ?_).mono (Nat.le_add_right (n + 1) 2)
    · rw [conditionCodes_pos _ hpositive]
      decide
    · exact h _ _ hround1

theorem advance_executes (hc : c ≤ 7) (hround : Round c u v t reg)
    (hback : c < 7 → ∀ reg' nzp', Round (c + 1) (u + u) v t reg' →
      Executes loop 58 Q n ⟨reg', line 58 0, nzp', mem, hex⟩)
    (hout : c = 7 → ∀ reg', Round 8 (u + u) v t reg' →
      Executes loop 58 Q n ⟨reg', line 58 12, 0b010#3, mem, hex⟩) :
    Executes loop 58 Q (n + 4) ⟨reg, line 58 8, nzp, mem, hex⟩ := by
  have hlength : 58 + loop.length ≤ 1024 := by decide
  have hcount : reg 4 + 1 = BitVec.ofNat 16 (c + 1) := by
    rw [hround.count]
    exact (BitVec.ofNat_add c 1).symm
  have hshift : reg 1 + reg 1 = u + u := by rw [hround.first]
  have hround1 := (hround.setCount (c + 1)).setFirst (u + u)
  refine executes_compute hcode hlength rfl rfl hcount ?_
  refine executes_compute hcode hlength rfl rfl hshift ?_
  refine executes_compute hcode hlength rfl rfl (v := BitVec.ofNat 16 (c + 1) + (-8)) rfl ?_
  rcases Nat.lt_or_eq_of_le hc with hlt | rfl
  · refine executes_taken hcode hlength (l := 0) rfl ?_ rfl ?_
    · have hcodes : ∀ c, c < 7 → 0b100#3 &&& Isa.conditionCodes (BitVec.ofNat 16 (c + 1) + (-8)) ≠ 0 := by
        decide
      exact hcodes c hlt
    · exact hback hlt _ _ (hround1.scratch _)
  · refine executes_untaken hcode hlength rfl rfl ?_
    exact hout rfl _ (hround1.scratch _)

theorem round_executes (hc : c ≤ 7) (hround : Round c u v t reg)
    (hback : c < 7 → ∀ reg' nzp',
      Round (c + 1) (u + u) v (accumulate c (u.getLsbD 7) v t) reg' →
      Executes loop 58 Q n ⟨reg', line 58 0, nzp', mem, hex⟩)
    (hout : c = 7 → ∀ reg', Round 8 (u + u) v (accumulate c (u.getLsbD 7) v t) reg' →
      Executes loop 58 Q n ⟨reg', line 58 12, 0b010#3, mem, hex⟩) :
    Executes loop 58 Q (n + 12) ⟨reg, line 58 0, nzp, mem, hex⟩ :=
  accumulate_executes (n := n + 8) hcode hround fun _ _ hround' =>
    negate_executes (n := n + 4) hcode hc hround' fun _ _ hround' =>
      advance_executes hcode hc hround' hback hout

end Blocks

section Arithmetic

variable (a : BitVec 8) (v : Word)

/-- What the first `c` bits of an operand are worth, its sign bit first. -/
def weight : Nat → Int
  | 0 => 0
  | c + 1 => a.toInt / 2 ^ (7 - c)

theorem weight_one : weight a 1 = -((a.getLsbD 7).toNat : Int) := toInt_div_sign a (by decide)

theorem weight_next {c : Nat} (hpos : 0 < c) (hc : c ≤ 7) :
    weight a (c + 1) = 2 * weight a c + (a.getLsbD (7 - c)).toNat := by
  obtain ⟨c, rfl⟩ := Nat.exists_eq_succ_of_ne_zero (Nat.pos_iff_ne_zero.mp hpos)
  have hshift : 7 - c = 7 - (c + 1) + 1 := by omega
  rw [weight, weight, hshift]
  exact toInt_div_two_pow a (by omega)

theorem weight_all : weight a 8 = a.toInt := Int.ediv_one _

def partialProduct (c : Nat) : Word := BitVec.ofInt 16 (weight a c * v.toNat)

theorem partialProduct_zero : partialProduct a v 0 = 0 := by
  rw [partialProduct, weight, Int.zero_mul]
  rfl

theorem ofInt_toNat : BitVec.ofInt 16 v.toNat = v := by
  rw [BitVec.ofInt_natCast, BitVec.ofNat_toNat, BitVec.setWidth_eq]

theorem ofInt_bit (bit : Bool) : BitVec.ofInt 16 (bit.toNat * v.toNat) = if bit then v else 0 := by
  cases bit with
  | true =>
      rw [if_pos rfl, Bool.toNat_true, Int.natCast_one, Int.one_mul, ofInt_toNat]
  | false =>
      rw [if_neg Bool.false_ne_true, Bool.toNat_false, Int.natCast_zero, Int.zero_mul]
      rfl

theorem accumulate_partialProduct {c : Nat} (hc : c ≤ 7) :
    accumulate c (a.getLsbD (7 - c)) v (partialProduct a v c) = partialProduct a v (c + 1) := by
  rw [accumulate, ← ofInt_bit, partialProduct, partialProduct, ← BitVec.ofInt_add, ← BitVec.ofInt_add]
  rcases Nat.eq_zero_or_pos c with rfl | hpos
  · rw [if_pos rfl, weight_one, weight, ← BitVec.ofInt_neg]
    congr 1
    ring
  · rw [if_neg (Nat.pos_iff_ne_zero.mp hpos), weight_next a hpos hc]
    congr 1
    ring

end Arithmetic

theorem shiftLeft_double (w : Word) (c : Nat) : w <<< c + w <<< c = w <<< (c + 1) := by
  rw [BitVec.shiftLeft_add, BitVec.shiftLeft_eq_mul_twoPow _ 1]
  exact BitVec.mul_two.symm

theorem getLsbD_shifted (w : Word) {c : Nat} (hc : c ≤ 7) :
    (w <<< c).getLsbD 7 = (w.setWidth 8).getLsbD (7 - c) := by
  have hlt : 7 - c < 8 := Nat.lt_succ_of_le (Nat.sub_le 7 c)
  rw [BitVec.getLsbD_shiftLeft, BitVec.getLsbD_setWidth, decide_eq_true hlt]
  simp [Nat.not_lt.mpr hc]

/-- The registers before round `c` of the product of `w` and `v`. -/
abbrev InRound (w v : Word) (c : Nat) (reg : Reg → Word) : Prop :=
  Round c (w <<< c) v (partialProduct (w.setWidth 8) v c) reg

theorem inRound_succ {w v : Word} {c : Nat} {reg : Reg → Word} (hc : c ≤ 7)
    (h : Round (c + 1) (w <<< c + w <<< c) v
      (accumulate c ((w <<< c).getLsbD 7) v (partialProduct (w.setWidth 8) v c)) reg) :
    InRound w v (c + 1) reg := by
  rwa [shiftLeft_double, getLsbD_shifted w hc, accumulate_partialProduct _ v hc] at h

section Loop

variable {v w : Word} {nzp : BitVec 3} {mem : BitVec 10 → Word} {hex : Word} {Q : Isa.State → Prop}
  (hcode : Code loop 58 mem)

include hcode

/-- The loop from round `c` on, with `left` more rounds after it. -/
theorem rounds_executes {n : Nat} (left c : Nat) (hleft : c + left = 7)
    (h : ∀ reg', InRound w v 8 reg' → Executes loop 58 Q n ⟨reg', line 58 12, 0b010#3, mem, hex⟩)
    {reg : Reg → Word} (hround : InRound w v c reg) :
    Executes loop 58 Q (n + 12 * (left + 1)) ⟨reg, line 58 0, nzp, mem, hex⟩ := by
  induction left generalizing c reg nzp with
  | zero =>
      obtain rfl : c = 7 := hleft
      refine round_executes hcode le_rfl hround (fun hlt => absurd hlt (Nat.lt_irrefl 7)) ?_
      exact fun _ reg' hround' => h reg' (inRound_succ le_rfl hround')
  | succ left ih =>
      refine round_executes (n := n + 12 * (left + 1)) hcode (by omega) hround ?_ fun heq => absurd heq (by omega)
      exact fun _ reg' nzp' hround' => ih (c + 1) (by omega) (inRound_succ (by omega) hround')

theorem multiply_executes {reg : Reg → Word} (hround : InRound w v 0 reg)
    (h : ∀ reg', InRound w v 8 reg' →
      Q ⟨reg', line 58 13, 0b010#3, Function.update mem 1023 (partialProduct (w.setWidth 8) v 8),
        partialProduct (w.setWidth 8) v 8⟩) :
    Executes loop 58 Q 97 ⟨reg, line 58 0, nzp, mem, hex⟩ := by
  refine rounds_executes (n := 1) hcode 7 0 rfl (fun reg' hround' => ?_) hround
  exact executes_display hcode (by decide) rfl (mapped_address hround'.zero) hround'.total (.done (h reg' hround'))

end Loop

end ECE385.SLC3.MultiplierProgram
