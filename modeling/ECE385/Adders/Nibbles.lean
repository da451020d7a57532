import ECE385.Multiplier.Adder

namespace ECE385.Adders.Nibbles

open Arithmetic.CarryGroups
open Multiplier.Adder (fullAdder rippleAdder4 rippleAdder4_adds)

structure Lookahead where
  s : BitVec 4
  p : Bool
  g : Bool

def claAdder4 (a b : BitVec 4) (cin : Bool) : Lookahead :=
  let g0 := a.getLsbD 0 && b.getLsbD 0
  let g1 := a.getLsbD 1 && b.getLsbD 1
  let g2 := a.getLsbD 2 && b.getLsbD 2
  let g3 := a.getLsbD 3 && b.getLsbD 3
  let p0 := a.getLsbD 0 ^^ b.getLsbD 0
  let p1 := a.getLsbD 1 ^^ b.getLsbD 1
  let p2 := a.getLsbD 2 ^^ b.getLsbD 2
  let p3 := a.getLsbD 3 ^^ b.getLsbD 3
  let (s0, _) := fullAdder (a.getLsbD 0) (b.getLsbD 0) cin
  let (s1, _) := fullAdder (a.getLsbD 1) (b.getLsbD 1) (cin && p0 || g0)
  let (s2, _) := fullAdder (a.getLsbD 2) (b.getLsbD 2) (cin && p0 && p1 || g0 && p1 || g1)
  let (s3, _) := fullAdder (a.getLsbD 3) (b.getLsbD 3)
    (cin && p0 && p1 && p2 || g0 && p1 && p2 || g1 && p2 || g2)
  { s := BitVec.ofBool s3 ++ BitVec.ofBool s2 ++ BitVec.ofBool s1 ++ BitVec.ofBool s0
    p := p0 && p1 && p2 && p3
    g := g3 || g2 && p3 || g1 && p3 && p2 || g0 && p3 && p2 && p1 }

/-- Two chains of full adders, each wired as that of the ripple adder, for the two
values of the carry, and multiplexers for it. -/
def selectAdder4 (a b : BitVec 4) (cin : Bool) : BitVec 4 × Bool :=
  let (s0, cout0) := rippleAdder4 a b false
  let (s1, cout1) := rippleAdder4 a b true
  (if cin then s1 else s0, cin && cout1 || cout0)

def Lookahead.group (r : Lookahead) : Group := ⟨r.g, r.p⟩

variable (a b : BitVec 4) (cin : Bool)

def positionAt (k : Nat) : Group := position (a.getLsbD k) (b.getLsbD k)

theorem rippleAdder4_carry :
    (rippleAdder4 a b cin).2 =
      (positionAt a b 3).carry ((positionAt a b 2).carry ((positionAt a b 1).carry ((positionAt a b 0).carry cin))) := by
  simp only [positionAt, carry_position]
  rfl

theorem group_claAdder4 :
    (claAdder4 a b cin).group =
      (positionAt a b 3).above ((positionAt a b 2).above ((positionAt a b 1).above (positionAt a b 0))) := by
  simp only [Lookahead.group, claAdder4, Group.above, Group.carry, positionAt, position,
    Bool.and_or_distrib_left, Group.mk.injEq]
  constructor
  · ac_rfl
  · ac_rfl

/-- The group's P and G do not depend on the carry they are used for. -/
theorem carry_claAdder4 (c : Bool) : (claAdder4 a b cin).group.carry c = (rippleAdder4 a b c).2 := by
  rw [group_claAdder4, Group.carry_above, Group.carry_above, Group.carry_above, rippleAdder4_carry]

theorem claAdder4_s : (claAdder4 a b cin).s = (rippleAdder4 a b cin).1 := by
  have hone := carry_one (positionAt a b 0) cin
  have htwo := carry_two (positionAt a b 0) (positionAt a b 1) cin
  have hthree := carry_three (positionAt a b 0) (positionAt a b 1) (positionAt a b 2) cin
  simp only [positionAt, carry_position] at hone htwo hthree
  simp only [position] at hone htwo hthree
  simp only [claAdder4, rippleAdder4, fullAdder, hone, htwo, hthree]

theorem claAdder4_adds : Adds a b cin (claAdder4 a b cin).s ((claAdder4 a b cin).group.carry cin) := by
  rw [claAdder4_s, carry_claAdder4]
  exact rippleAdder4_adds a b cin

theorem selectAdder4_adds : Adds a b cin (selectAdder4 a b cin).1 (selectAdder4 a b cin).2 :=
  (rippleAdder4_adds a b false).select (rippleAdder4_adds a b true) cin

end ECE385.Adders.Nibbles
