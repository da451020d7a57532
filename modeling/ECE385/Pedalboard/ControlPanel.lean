import ECE385.Pedalboard.Tuning

namespace ECE385.Pedalboard.ControlPanel

open Tuning

structure State where
  gain : BitVec 2
  bitdepth : BitVec 3
  clip : BitVec 3
  delaytime : BitVec 3
  trem : BitVec 2
  cutoff : BitVec 2
  up1 : Bool
  up2 : Bool
  down1 : Bool
  down2 : Bool

def powerUp : State := ⟨0, 0, 0, 0, 0, 0, false, false, false, false⟩

def State.add (s : State) : Bool := s.up1 && !s.up2
def State.subtract (s : State) : Bool := s.down1 && !s.down2

/-- A level register. The last assignment wins: both keys at once clear it, and
a count down goes before a count up. -/
def tune {w : Nat} (selected add subtract both : Bool) (r : BitVec w) : BitVec w :=
  if !selected then r
  else if both then 0
  else if subtract && r != 0 then r - 1
  else if add && r != BitVec.allOnes w then r + 1
  else r

/-- A rising edge of CLK. The keys are active low. -/
def State.clk (select : BitVec 3) (button0 button1 : Bool) (s : State) : State :=
  let up := !button0
  let down := !button1
  let both := up && down
  { gain := tune (select == 0b000#3) s.add s.subtract both s.gain
    bitdepth := tune (select == 0b001#3) s.add s.subtract both s.bitdepth
    clip := tune (select == 0b010#3) s.add s.subtract both s.clip
    delaytime := tune (select == 0b011#3) s.add s.subtract both s.delaytime
    trem := tune (select == 0b100#3) s.add s.subtract both s.trem
    cutoff := tune (select == 0b101#3) s.add s.subtract both s.cutoff
    up1 := up
    up2 := up && s.up1
    down1 := down
    down2 := down && s.down1 }

def State.level (s : State) (p : BitVec 3) : Nat :=
  match p.toNat with
  | 0 => s.gain.toNat
  | 1 => s.bitdepth.toNat
  | 2 => s.clip.toNat
  | 3 => s.delaytime.toNat
  | 4 => s.trem.toNat
  | 5 => s.cutoff.toNat
  | _ => 0

/-- The count that the key registers have in store for the next edge. -/
def State.counted (select : BitVec 3) (s : State) : Levels :=
  if s.add then inc select s.level else if s.subtract then dec select s.level else s.level

section Register

variable {w : Nat} (hw : 0 < w) (r : BitVec w)

include hw

theorem toNat_one_of_pos : (1 : BitVec w).toNat = 1 := by
  have hone : 1 < 2 ^ w := Nat.one_lt_two_pow (Nat.pos_iff_ne_zero.mp hw)
  exact Nat.mod_eq_of_lt hone

theorem tune_up :
    (tune true true false false r).toNat = if r.toNat < 2 ^ w - 1 then r.toNat + 1 else r.toNat := by
  have hr := r.isLt
  have hmax : r = BitVec.allOnes w ↔ r.toNat = 2 ^ w - 1 := by
    rw [← BitVec.toNat_inj, BitVec.toNat_allOnes]
  by_cases hr' : r = BitVec.allOnes w
  · have hval := hmax.mp hr'
    rw [if_neg (by omega)]
    simp [tune, hr']
  · have hval := mt hmax.mpr hr'
    have hinc : (r + 1).toNat = r.toNat + 1 := by
      rw [BitVec.toNat_add, toNat_one_of_pos hw, Nat.mod_eq_of_lt (by omega)]
    rw [if_pos (by omega), ← hinc]
    simp [tune, hr']

theorem tune_down : (tune true false true false r).toNat = r.toNat - 1 := by
  by_cases hr' : r = 0
  · simp [tune, hr']
  · have hpos : 0 < r.toNat := Nat.pos_of_ne_zero fun h => hr' (BitVec.toNat_inj.mp h)
    have hle : (1 : BitVec w) ≤ r := by
      rw [BitVec.le_def, toNat_one_of_pos hw]
      exact hpos
    have hdec := BitVec.toNat_sub_of_le hle
    rw [toNat_one_of_pos hw] at hdec
    rw [← hdec]
    simp only [tune, Bool.not_true, Bool.false_eq_true, if_false, Bool.true_and, bne_iff_ne, ne_eq, hr',
      not_false_eq_true, if_true]

end Register

theorem tune_hold {w : Nat} (selected : Bool) (r : BitVec w) : tune selected false false false r = r := by
  cases selected <;> rfl

theorem tune_other {w : Nat} (add subtract both : Bool) (r : BitVec w) :
    tune false add subtract both r = r := rfl

theorem counted_apply (select : BitVec 3) (s : State) (p : BitVec 3) :
    s.counted select p =
      if s.add then if p = select ∧ s.level p < top p then s.level p + 1 else s.level p
      else if s.subtract then if p = select then s.level p - 1 else s.level p
      else s.level p := by
  rw [State.counted]
  split
  · rfl
  · split <;> rfl

theorem tune_counted {w : Nat} {r : BitVec w} {s : State} {p : BitVec 3} (select : BitVec 3) (hw : 0 < w)
    (hlevel : s.level p = r.toNat) (htop : top p = 2 ^ w - 1) (hstore : (s.add && s.subtract) = false) :
    (tune (select == p) s.add s.subtract false r).toNat = s.counted select p := by
  rw [counted_apply, hlevel, htop]
  by_cases hp : p = select
  · rw [← hp, beq_self_eq_true]
    cases hadd : s.add with
    | true =>
        rw [hadd, Bool.true_and] at hstore
        rw [hstore, tune_up hw]
        simp
    | false =>
        cases hsubtract : s.subtract with
        | true => rw [tune_down hw]; simp
        | false => simp [tune_hold]
  · rw [beq_false_of_ne (Ne.symm hp), tune_other]
    simp [hp]

/-- The six registers and the two selectors without one, as one case each. -/
theorem level_clk_apply (select : BitVec 3) (button0 button1 : Bool) (s : State) {p : BitVec 3} {l : Nat}
    (htune : ∀ {w : Nat} (r : BitVec w), 0 < w → s.level p = r.toNat → top p = 2 ^ w - 1 →
      (tune (select == p) s.add s.subtract (!button0 && !button1) r).toNat = l)
    (hnone : s.level p = 0 → top p = 0 → l = 0) : (s.clk select button0 button1).level p = l := by
  obtain rfl | rfl | rfl | rfl | rfl | rfl | rfl | rfl := selector_cases p
  · exact htune s.gain (by decide) rfl rfl
  · exact htune s.bitdepth (by decide) rfl rfl
  · exact htune s.clip (by decide) rfl rfl
  · exact htune s.delaytime (by decide) rfl rfl
  · exact htune s.trem (by decide) rfl rfl
  · exact htune s.cutoff (by decide) rfl rfl
  · exact (hnone rfl rfl).symm
  · exact (hnone rfl rfl).symm

theorem level_clk (select : BitVec 3) {button0 button1 : Bool} (s : State)
    (hboth : (!button0 && !button1) = false) (hstore : (s.add && s.subtract) = false) :
    (s.clk select button0 button1).level = s.counted select := by
  funext p
  apply level_clk_apply
  · intro w r hw hlevel htop
    rw [hboth]
    exact tune_counted select hw hlevel htop hstore
  · intro hlevel htop
    rw [counted_apply, hlevel, htop]
    split <;> simp

theorem tune_both {w : Nat} {r : BitVec w} {s : State} {p : BitVec 3} (select : BitVec 3)
    (hlevel : s.level p = r.toNat) :
    (tune (select == p) s.add s.subtract true r).toNat = clear select s.level p := by
  rw [clear, hlevel]
  by_cases hp : p = select
  · rw [if_pos hp, hp, beq_self_eq_true]
    exact BitVec.toNat_zero
  · rw [if_neg hp, beq_false_of_ne (Ne.symm hp), tune_other]

theorem level_clk_both (select : BitVec 3) {button0 button1 : Bool} (s : State)
    (hboth : (!button0 && !button1) = true) :
    (s.clk select button0 button1).level = clear select s.level := by
  funext p
  apply level_clk_apply
  · intro w r _ hlevel _
    rw [hboth]
    exact tune_both select hlevel
  · intro hlevel _
    rw [clear, hlevel, ite_self]

end ECE385.Pedalboard.ControlPanel
