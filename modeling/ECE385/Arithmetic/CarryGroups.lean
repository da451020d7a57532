import Mathlib.Data.BitVec
import Mathlib.Tactic.Ring
import ECE385.Arithmetic.TwosComplement

namespace ECE385.Arithmetic.CarryGroups

open TwosComplement (toNat_append)

/-- What some neighbouring bit positions of an addition do with a carry: they
make one, or they let one through. -/
structure Group where
  gen : Bool
  prop : Bool

def Group.carry (g : Group) (cin : Bool) : Bool := g.gen || g.prop && cin

def Group.above (high low : Group) : Group := ⟨high.carry low.gen, high.prop && low.prop⟩

def position (a b : Bool) : Group := ⟨a && b, a ^^ b⟩

theorem carry_position (a b cin : Bool) : (position a b).carry cin = (a && b || b && cin || a && cin) := by
  cases a <;> cases b <;> cases cin <;> rfl

theorem Group.carry_above (high low : Group) (cin : Bool) :
    (high.above low).carry cin = high.carry (low.carry cin) := by
  simp only [Group.carry, Group.above, Bool.and_or_distrib_left, Bool.or_assoc, Bool.and_assoc]

section Expanded

variable (g0 g1 g2 g3 : Group) (cin : Bool)

theorem carry_one : (cin && g0.prop || g0.gen) = g0.carry cin := by
  rw [Group.carry, Bool.or_comm, Bool.and_comm]

theorem carry_two :
    (cin && g0.prop && g1.prop || g0.gen && g1.prop || g1.gen) = g1.carry (g0.carry cin) := by
  rw [← carry_one, ← carry_one, Bool.and_or_distrib_right]

theorem carry_three :
    (cin && g0.prop && g1.prop && g2.prop || g0.gen && g1.prop && g2.prop || g1.gen && g2.prop || g2.gen) =
      g2.carry (g1.carry (g0.carry cin)) := by
  rw [← carry_two, ← carry_one, Bool.and_or_distrib_right, Bool.and_or_distrib_right]

theorem carry_four :
    (cin && g0.prop && g1.prop && g2.prop && g3.prop || g0.gen && g1.prop && g2.prop && g3.prop ||
        g1.gen && g2.prop && g3.prop || g2.gen && g3.prop || g3.gen) =
      g3.carry (g2.carry (g1.carry (g0.carry cin))) := by
  rw [← carry_three, ← carry_one, Bool.and_or_distrib_right, Bool.and_or_distrib_right, Bool.and_or_distrib_right]

end Expanded

variable {w : Nat} {a b s : BitVec w} {cin cout : Bool}

/-- `s` with the carry `cout` on top is the sum of `a`, `b` and `cin`. -/
def Adds (a b : BitVec w) (cin : Bool) (s : BitVec w) (cout : Bool) : Prop :=
  s.toNat + 2 ^ w * cout.toNat = a.toNat + b.toNat + cin.toNat

theorem adds_iff_concat : Adds a b cin s cout ↔ (BitVec.ofBool cout ++ s).toNat = a.toNat + b.toNat + cin.toNat := by
  rw [Adds, toNat_append, BitVec.toNat_ofBool, Nat.mul_comm, Nat.add_comm s.toNat]

theorem Adds.carry_eq (h : Adds a b cin s cout) : cout = decide (2 ^ w ≤ a.toNat + b.toNat + cin.toNat) := by
  have hs := s.isLt
  rw [← h]
  cases cout with
  | true => simp
  | false => simpa using hs

theorem Adds.unique {s' : BitVec w} {cout' : Bool} (h : Adds a b cin s cout) (h' : Adds a b cin s' cout') :
    s = s' ∧ cout = cout' := by
  have hcarry : cout = cout' := h.carry_eq.trans h'.carry_eq.symm
  subst cout'
  exact ⟨BitVec.eq_of_toNat_eq (Nat.add_right_cancel (h.trans h'.symm)), rfl⟩

theorem Adds.append {u : Nat} {a' b' s' : BitVec u} {mid : Bool} (hlow : Adds a b cin s mid)
    (hhigh : Adds a' b' mid s' cout) : Adds (a' ++ a) (b' ++ b) cin (s' ++ s) cout := by
  rw [Adds] at hlow hhigh ⊢
  rw [toNat_append, toNat_append, toNat_append]
  calc
    s'.toNat * 2 ^ w + s.toNat + 2 ^ (u + w) * cout.toNat
        = 2 ^ w * (s'.toNat + 2 ^ u * cout.toNat) + s.toNat := by ring
    _ = 2 ^ w * (a'.toNat + b'.toNat) + (s.toNat + 2 ^ w * mid.toNat) := by rw [hhigh]; ring
    _ = a'.toNat * 2 ^ w + a.toNat + (b'.toNat * 2 ^ w + b.toNat) + cin.toNat := by rw [hlow]; ring

/-- Both sums are there before the carry is, which only selects one. -/
theorem Adds.select {s0 s1 : BitVec w} {cout0 cout1 : Bool} (h0 : Adds a b false s0 cout0)
    (h1 : Adds a b true s1 cout1) (cin : Bool) :
    Adds a b cin (if cin then s1 else s0) (cin && cout1 || cout0) := by
  cases cin with
  | false => exact h0
  | true =>
      have hmono : (true && cout1 || cout0) = cout1 := by
        rw [h0.carry_eq, h1.carry_eq, Bool.true_and, ← Bool.decide_or]
        congr 1
        apply propext
        constructor
        · rintro (h | h)
          · exact h
          · exact h.trans (Nat.le_succ _)
        · exact .inl
      rw [hmono]
      exact h1

end ECE385.Arithmetic.CarryGroups
