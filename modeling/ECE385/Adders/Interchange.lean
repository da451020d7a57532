import ECE385.Adders.Nibbles

namespace ECE385.Adders.Interchange

open Arithmetic.CarryGroups
open Multiplier.Adder (rippleAdder4 rippleAdder4_adds)
open Nibbles

def rippleAdder (a b : BitVec 16) (cin : Bool) : BitVec 16 × Bool :=
  let (s0, cout0) := rippleAdder4 (a.extractLsb' 0 4) (b.extractLsb' 0 4) cin
  let (s1, cout1) := rippleAdder4 (a.extractLsb' 4 4) (b.extractLsb' 4 4) cout0
  let (s2, cout2) := rippleAdder4 (a.extractLsb' 8 4) (b.extractLsb' 8 4) cout1
  let (s3, cout) := rippleAdder4 (a.extractLsb' 12 4) (b.extractLsb' 12 4) cout2
  (s3 ++ s2 ++ s1 ++ s0, cout)

/-- The lowest nibble has its carry at once and is a plain ripple adder. -/
def selectAdder (a b : BitVec 16) (cin : Bool) : BitVec 16 × Bool :=
  let (s0, cout0) := rippleAdder4 (a.extractLsb' 0 4) (b.extractLsb' 0 4) cin
  let (s1, cout1) := selectAdder4 (a.extractLsb' 4 4) (b.extractLsb' 4 4) cout0
  let (s2, cout2) := selectAdder4 (a.extractLsb' 8 4) (b.extractLsb' 8 4) cout1
  let (s3, cout) := selectAdder4 (a.extractLsb' 12 4) (b.extractLsb' 12 4) cout2
  (s3 ++ s2 ++ s1 ++ s0, cout)

def lookaheadAdder (a b : BitVec 16) (cin : Bool) : BitVec 16 × Bool :=
  let r0 := claAdder4 (a.extractLsb' 0 4) (b.extractLsb' 0 4) cin
  let r4 := claAdder4 (a.extractLsb' 4 4) (b.extractLsb' 4 4) (cin && r0.p || r0.g)
  let r8 := claAdder4 (a.extractLsb' 8 4) (b.extractLsb' 8 4) (cin && r0.p && r4.p || r0.g && r4.p || r4.g)
  let r12 := claAdder4 (a.extractLsb' 12 4) (b.extractLsb' 12 4)
    (cin && r0.p && r4.p && r8.p || r0.g && r4.p && r8.p || r4.g && r8.p || r8.g)
  (r12.s ++ r8.s ++ r4.s ++ r0.s,
    cin && r0.p && r4.p && r8.p && r12.p || r0.g && r4.p && r8.p && r12.p || r4.g && r8.p && r12.p ||
      r8.g && r12.p || r12.g)

theorem nibbles (a : BitVec 16) :
    a.extractLsb' 12 4 ++ a.extractLsb' 8 4 ++ a.extractLsb' 4 4 ++ a.extractLsb' 0 4 = a := by
  apply BitVec.eq_of_getLsbD_eq
  intro i hi
  simp only [BitVec.getLsbD_append, BitVec.getLsbD_extractLsb']
  grind

section Chain

variable {a b : BitVec 16} {cin c0 c1 c2 cout : Bool} {s0 s1 s2 s3 : BitVec 4}

theorem adds_nibbles (h0 : Adds (a.extractLsb' 0 4) (b.extractLsb' 0 4) cin s0 c0)
    (h1 : Adds (a.extractLsb' 4 4) (b.extractLsb' 4 4) c0 s1 c1)
    (h2 : Adds (a.extractLsb' 8 4) (b.extractLsb' 8 4) c1 s2 c2)
    (h3 : Adds (a.extractLsb' 12 4) (b.extractLsb' 12 4) c2 s3 cout) :
    Adds a b cin (s3 ++ s2 ++ s1 ++ s0) cout := by
  have hall := h0.append (h1.append (h2.append h3))
  rw [nibbles a, nibbles b] at hall
  exact hall

end Chain

section Wide

variable (a b : BitVec 16) (cin : Bool)

theorem rippleAdder_adds : Adds a b cin (rippleAdder a b cin).1 (rippleAdder a b cin).2 :=
  adds_nibbles (rippleAdder4_adds ..) (rippleAdder4_adds ..) (rippleAdder4_adds ..) (rippleAdder4_adds ..)

theorem selectAdder_adds : Adds a b cin (selectAdder a b cin).1 (selectAdder a b cin).2 :=
  adds_nibbles (rippleAdder4_adds ..) (selectAdder4_adds ..) (selectAdder4_adds ..) (selectAdder4_adds ..)

/-- The carries that the sums of products make are those that the groups hand on. -/
theorem lookaheadAdder_adds : Adds a b cin (lookaheadAdder a b cin).1 (lookaheadAdder a b cin).2 := by
  let r0 := claAdder4 (a.extractLsb' 0 4) (b.extractLsb' 0 4) cin
  let c4 := cin && r0.p || r0.g
  let r4 := claAdder4 (a.extractLsb' 4 4) (b.extractLsb' 4 4) c4
  let c8 := cin && r0.p && r4.p || r0.g && r4.p || r4.g
  let r8 := claAdder4 (a.extractLsb' 8 4) (b.extractLsb' 8 4) c8
  let c12 := cin && r0.p && r4.p && r8.p || r0.g && r4.p && r8.p || r4.g && r8.p || r8.g
  let r12 := claAdder4 (a.extractLsb' 12 4) (b.extractLsb' 12 4) c12
  have h4 : c4 = r0.group.carry cin := carry_one r0.group cin
  have h8 : c8 = r4.group.carry c4 := by rw [h4]; exact carry_two r0.group r4.group cin
  have h12 : c12 = r8.group.carry c8 := by rw [h8, h4]; exact carry_three r0.group r4.group r8.group cin
  have hout : (lookaheadAdder a b cin).2 = r12.group.carry c12 := by
    rw [h12, h8, h4]
    exact carry_four r0.group r4.group r8.group r12.group cin
  rw [hout]
  have h0 : Adds (a.extractLsb' 0 4) (b.extractLsb' 0 4) cin r0.s c4 := by
    rw [h4]
    exact claAdder4_adds ..
  have h1 : Adds (a.extractLsb' 4 4) (b.extractLsb' 4 4) c4 r4.s c8 := by
    rw [h8]
    exact claAdder4_adds ..
  have h2 : Adds (a.extractLsb' 8 4) (b.extractLsb' 8 4) c8 r8.s c12 := by
    rw [h12]
    exact claAdder4_adds ..
  exact adds_nibbles h0 h1 h2 (claAdder4_adds ..)

end Wide

/-- The three adders have the same outputs, and {cout,S} is the sum. For that the
G and P of every nibble make its carry, and so does the selection between the two
chains. -/
theorem adders_interchangeable :
    (∀ (a b : BitVec 16) (cin : Bool),
      lookaheadAdder a b cin = rippleAdder a b cin ∧ selectAdder a b cin = rippleAdder a b cin ∧
        (BitVec.ofBool (rippleAdder a b cin).2 ++ (rippleAdder a b cin).1).toNat =
          a.toNat + b.toNat + cin.toNat) ∧
    (∀ (a b : BitVec 4) (cin : Bool),
      (BitVec.ofBool ((claAdder4 a b cin).g || (claAdder4 a b cin).p && cin) ++ (claAdder4 a b cin).s).toNat =
        a.toNat + b.toNat + cin.toNat) ∧
    (∀ (a b : BitVec 4) (cin : Bool),
      (BitVec.ofBool (selectAdder4 a b cin).2 ++ (selectAdder4 a b cin).1).toNat =
        a.toNat + b.toNat + cin.toNat) := by
  refine ⟨?_, ?_, ?_⟩
  · intro a b cin
    have hripple := rippleAdder_adds a b cin
    obtain ⟨hs, hcout⟩ := (lookaheadAdder_adds a b cin).unique hripple
    obtain ⟨hs', hcout'⟩ := (selectAdder_adds a b cin).unique hripple
    exact ⟨Prod.ext hs hcout, Prod.ext hs' hcout', adds_iff_concat.mp hripple⟩
  · intro a b cin
    exact adds_iff_concat.mp (claAdder4_adds a b cin)
  · intro a b cin
    exact adds_iff_concat.mp (selectAdder4_adds a b cin)

end ECE385.Adders.Interchange
