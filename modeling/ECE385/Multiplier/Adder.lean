import Mathlib.Data.BitVec
import ECE385.Arithmetic.CarryGroups

namespace ECE385.Multiplier.Adder

open Arithmetic.CarryGroups (Adds)
open Arithmetic.TwosComplement (getLsbD_eq_mod toInt_invert)

def fullAdder (a b cin : Bool) : Bool × Bool := (a ^^ b ^^ cin, a && b || b && cin || a && cin)

def rippleAdder4 (a b : BitVec 4) (cin : Bool) : BitVec 4 × Bool :=
  let (s0, cout0) := fullAdder (a.getLsbD 0) (b.getLsbD 0) cin
  let (s1, cout1) := fullAdder (a.getLsbD 1) (b.getLsbD 1) cout0
  let (s2, cout2) := fullAdder (a.getLsbD 2) (b.getLsbD 2) cout1
  let (s3, cout) := fullAdder (a.getLsbD 3) (b.getLsbD 3) cout2
  (BitVec.ofBool s3 ++ BitVec.ofBool s2 ++ BitVec.ofBool s1 ++ BitVec.ofBool s0, cout)

structure Sum where
  sa : BitVec 8
  sx : Bool
  cout : Bool
  deriving DecidableEq

def addend (swadd : BitVec 8) (m cin : Bool) : BitVec 8 :=
  match cin, m with
  | false, false => 0
  | false, true => swadd
  | true, false => 0
  | true, true => ~~~swadd

def cinreal (m cin : Bool) : Bool :=
  match m with
  | false => false
  | true => cin

/-- Two ripple adders of four bits and a full adder for the sign. -/
def chain (a b : BitVec 8) (cin : Bool) : Sum :=
  let (low, cout0) := rippleAdder4 (a.extractLsb' 0 4) (b.extractLsb' 0 4) cin
  let (high, cout1) := rippleAdder4 (a.extractLsb' 4 4) (b.extractLsb' 4 4) cout0
  let (outx, cout) := fullAdder (a.getLsbD 7) (b.getLsbD 7) cout1
  ⟨high ++ low, outx, cout⟩

def rippleAdder9 (a swadd : BitVec 8) (m cin : Bool) : Sum := chain a (addend swadd m cin) (cinreal m cin)

theorem fullAdder_value (a b cin : Bool) :
    (fullAdder a b cin).1.toNat + 2 * (fullAdder a b cin).2.toNat = a.toNat + b.toNat + cin.toNat := by
  revert a b cin
  decide

theorem fullAdder_adds (a b cin : Bool) :
    Adds (BitVec.ofBool a) (BitVec.ofBool b) cin (BitVec.ofBool (fullAdder a b cin).1) (fullAdder a b cin).2 := by
  rw [Adds, BitVec.toNat_ofBool, BitVec.toNat_ofBool, BitVec.toNat_ofBool]
  exact fullAdder_value a b cin

theorem ofBool_bits (a : BitVec 4) :
    BitVec.ofBool (a.getLsbD 3) ++ BitVec.ofBool (a.getLsbD 2) ++ BitVec.ofBool (a.getLsbD 1) ++
      BitVec.ofBool (a.getLsbD 0) = a := by
  revert a
  decide

theorem rippleAdder4_adds (a b : BitVec 4) (cin : Bool) :
    Adds a b cin (rippleAdder4 a b cin).1 (rippleAdder4 a b cin).2 := by
  have hall := (fullAdder_adds (a.getLsbD 0) (b.getLsbD 0) cin).append
    ((fullAdder_adds (a.getLsbD 1) (b.getLsbD 1) _).append
      ((fullAdder_adds (a.getLsbD 2) (b.getLsbD 2) _).append (fullAdder_adds (a.getLsbD 3) (b.getLsbD 3) _)))
  rw [ofBool_bits a, ofBool_bits b] at hall
  exact hall

/-- The signed value of nine bits, the sign first. -/
def signed (x : Bool) (a : BitVec 8) : Int := a.toNat - 256 * x.toNat

theorem signed_msb (a : BitVec 8) : signed (a.getLsbD 7) a = a.toInt := by
  rw [signed, BitVec.toInt_eq_msb_cond]
  have hmsb : a.msb = a.getLsbD 7 := rfl
  rw [hmsb]
  cases a.getLsbD 7 with
  | true | false => simp

/-- The addend when bit `m` of the multiplier is set is the multiplicand or, for
a subtraction, its complement, with the missing one as the carry. -/
theorem addend_value (swadd : BitVec 8) (m cin : Bool) :
    (addend swadd m cin).toInt + (cinreal m cin).toNat =
      (if cin then -swadd.toInt else swadd.toInt) * m.toNat := by
  cases m with
  | true =>
      cases cin with
      | true =>
          rw [addend, toInt_invert swadd (by decide)]
          simp [cinreal]
      | false => simp [addend, cinreal]
  | false =>
      cases cin with
      | true | false => simp [addend, cinreal]

theorem halves (a : BitVec 8) : a.extractLsb' 4 4 ++ a.extractLsb' 0 4 = a :=
  BitVec.extractLsb'_append_extractLsb'

theorem sign_bit (a : BitVec 8) : (a.getLsbD 7).toNat = a.toNat / 128 := by
  have hlt : a.toNat / 128 < 2 := Nat.div_lt_of_lt_mul a.isLt
  exact (getLsbD_eq_mod a 7).trans (Nat.mod_eq_of_lt hlt)

/-- The nine bits of the chain hold the signed sum. -/
theorem chain_value (a b : BitVec 8) (cin : Bool) :
    signed (chain a b cin).sx (chain a b cin).sa = a.toInt + b.toInt + cin.toNat := by
  let low := rippleAdder4 (a.extractLsb' 0 4) (b.extractLsb' 0 4) cin
  let high := rippleAdder4 (a.extractLsb' 4 4) (b.extractLsb' 4 4) low.2
  let sign := fullAdder (a.getLsbD 7) (b.getLsbD 7) high.2
  have hall := (rippleAdder4_adds (a.extractLsb' 0 4) (b.extractLsb' 0 4) cin).append
    (rippleAdder4_adds (a.extractLsb' 4 4) (b.extractLsb' 4 4) low.2)
  rw [halves, halves] at hall
  have hsum : (chain a b cin).sa.toNat + 256 * high.2.toNat = a.toNat + b.toNat + cin.toNat := hall
  have hsign : (chain a b cin).sx.toNat + 2 * sign.2.toNat =
      (a.getLsbD 7).toNat + (b.getLsbD 7).toNat + high.2.toNat := fullAdder_value ..
  have ha7 := sign_bit a
  have hb7 := sign_bit b
  have hcin := Bool.toNat_le cin
  have hcarry := Bool.toNat_le high.2
  have hx := Bool.toNat_le (chain a b cin).sx
  rw [← signed_msb a, ← signed_msb b, signed, signed, signed]
  omega

theorem rippleAdder9_value (a swadd : BitVec 8) (m cin : Bool) :
    signed (rippleAdder9 a swadd m cin).sx (rippleAdder9 a swadd m cin).sa =
      a.toInt + (if cin then -swadd.toInt else swadd.toInt) * m.toNat := by
  rw [← addend_value, ← Int.add_assoc]
  exact chain_value ..

end ECE385.Multiplier.Adder
