import ECE385.Arithmetic.Shifts
import ECE385.Pedalboard.Chain

namespace ECE385.Pedalboard.Clipping

open Arithmetic.Shifts
open Chain (Controls State)
open Delay (clocked)
open Effects

def limit (clip : BitVec 3) : Int := 2 ^ (20 - clip.toNat)

/-- A hard clipper: beyond the limits the sample is held at them. -/
def hardClip (clip : BitVec 3) (x : Int) : Int := 2 ^ clip.toNat * max (-limit clip) (min x (limit clip - 1))

theorem limit_eq (clip : BitVec 3) : limit clip = 8192 * (2 ^ (7 - clip.toNat) : Nat) := by
  revert clip
  decide

theorem checker_eq (clip : BitVec 3) : checker clip = BitVec.allOnes 10 <<< (7 - clip.toNat) := by
  revert clip
  decide

theorem threshold_shifted (clip : BitVec 3) :
    (sample ((threshold clip).setWidth 32 <<< clip)).toInt = 8191 ∧
      (sample (~~~(threshold clip).setWidth 32 <<< clip)).toInt = -8192 := by
  revert clip
  decide

section Compare

variable (clip : BitVec 3) (data : BitVec 24)

theorem above_iff (hsign : data.getLsbD 23 = false) :
    checker clip &&& data.extractLsb' 13 10 ≠ 0 ↔ limit clip ≤ data.toInt := by
  have hmsb : data.msb = false := hsign
  have hlt := BitVec.toNat_lt_of_msb_false hmsb
  have hmask := allOnes_shiftLeft_and_eq_zero (data.extractLsb' 13 10) (7 - clip.toNat)
  rw [BitVec.extractLsb'_toNat, Nat.shiftRight_eq_div_pow] at hmask
  rw [ne_eq, checker_eq, hmask, limit_eq, BitVec.toInt_eq_toNat_of_msb hmsb]
  generalize 2 ^ (7 - clip.toNat) = p
  omega

theorem below_iff (hsign : data.getLsbD 23 = true) :
    ~~~(~~~checker clip ||| data.extractLsb' 13 10) ≠ 0 ↔ data.toInt < -limit clip := by
  have hmsb : data.msb = true := hsign
  have hge := BitVec.toNat_ge_of_msb_true hmsb
  have hmask := allOnes_shiftLeft_and_eq_zero (~~~data.extractLsb' 13 10) (7 - clip.toNat)
  rw [BitVec.toNat_not, BitVec.extractLsb'_toNat, Nat.shiftRight_eq_div_pow] at hmask
  rw [ne_eq, BitVec.not_or, BitVec.not_not, checker_eq, hmask, limit_eq, BitVec.toInt_eq_msb_cond, if_pos hmsb]
  generalize 2 ^ (7 - clip.toNat) = p
  omega

end Compare

/-- With its padding clear a word shifts as its sample does. -/
theorem sample_shift {din : Word} (h : din.extractLsb' 0 7 = 0) (clip : BitVec 3) :
    sample (din <<< clip) = sample din <<< clip.toNat := by
  have hpadding : din.toNat % 2 ^ 7 = 0 := congrArg BitVec.toNat h
  obtain ⟨m, hm⟩ := Nat.dvd_of_mod_eq_zero hpadding
  have hsample (n : Nat) : 2 ^ 7 * n % 2 ^ 32 / 2 ^ 7 % 2 ^ 24 = n % 2 ^ 24 := by omega
  apply BitVec.eq_of_toNat_eq
  rw [BitVec.toNat_shiftLeft, sample, sample, BitVec.extractLsb'_toNat, BitVec.extractLsb'_toNat,
    BitVec.shiftLeft_eq', BitVec.toNat_shiftLeft, Nat.shiftLeft_eq, Nat.shiftLeft_eq, Nat.shiftRight_eq_div_pow,
    Nat.shiftRight_eq_div_pow, hm, Nat.mul_assoc, hsample, Nat.mul_div_cancel_left _ (by decide), Nat.mod_mul_mod]

theorem limit_bounds (clip : BitVec 3) : 0 < limit clip ∧ limit clip ≤ 2 ^ (24 - 1 - clip.toNat) := by
  revert clip
  decide

theorem sample_within {din : Word} (h : din.extractLsb' 0 7 = 0) {clip : BitVec 3}
    (hlow : -limit clip ≤ (sample din).toInt) (hhigh : (sample din).toInt < limit clip) :
    (sample (din <<< clip)).toInt = 2 ^ clip.toNat * (sample din).toInt := by
  have hclip : clip.toNat < 24 := Nat.lt_of_lt_of_le clip.isLt (by decide)
  have hbound := (limit_bounds clip).2
  rw [sample_shift h, toInt_shiftLeft_centred hclip, centred_of_bounds hclip (by omega) (by omega)]

def clipped (clip : BitVec 3) (x : Int) : Int :=
  if x < -limit clip then -8192 else if limit clip ≤ x then 8191 else 2 ^ clip.toNat * x

theorem overdrive_sample {din : Word} (h : din.extractLsb' 0 7 = 0) (clip : BitVec 3) :
    (sample (overdriveOut true clip din)).toInt = clipped clip (sample din).toInt := by
  have hpos := (limit_bounds clip).1
  have hwithin (hlow : -limit clip ≤ (sample din).toInt) (hhigh : (sample din).toInt < limit clip) :=
    sample_within h hlow hhigh
  obtain ⟨habove, hbelow⟩ := threshold_shifted clip
  simp only [overdriveOut, clipped, if_true]
  cases hsign : (sample din).getLsbD 23 with
  | false =>
      have hnonneg : 0 ≤ (sample din).toInt := BitVec.toInt_nonneg_of_msb_false hsign
      rw [if_pos rfl, if_neg (c := (sample din).toInt < -limit clip) (by omega)]
      simp only [above_iff clip _ hsign]
      split
      · exact habove
      · exact hwithin (by omega) (by omega)
  | true =>
      have hneg : (sample din).toInt < 0 := BitVec.toInt_neg_of_msb_true hsign
      rw [if_neg Bool.noConfusion, if_neg (c := limit clip ≤ (sample din).toInt) (by omega)]
      simp only [below_iff clip _ hsign]
      split
      · exact hbelow
      · exact hwithin (by omega) (by omega)

theorem scale_bounds (clip : BitVec 3) :
    (2 : Int) ^ clip.toNat * limit clip = 2 ^ 20 ∧ (0 : Int) < 2 ^ clip.toNat ∧ (2 : Int) ^ clip.toNat ≤ 128 := by
  revert clip
  decide

section Clipped

variable (clip : BitVec 3) {x x' : Int}

theorem clipped_eq_hardClip_iff : clipped clip x = hardClip clip x ↔ -limit clip ≤ x ∧ x < limit clip := by
  obtain ⟨hscale, hpos, hle⟩ := scale_bounds clip
  have hlimit := (limit_bounds clip).1
  rw [clipped, hardClip]
  split
  · have hmin : max (-limit clip) (min x (limit clip - 1)) = -limit clip := by omega
    rw [hmin, Int.mul_neg, hscale]
    omega
  · split
    · have hmax : max (-limit clip) (min x (limit clip - 1)) = limit clip - 1 := by omega
      rw [hmax, Int.mul_sub, hscale]
      omega
    · have hmid : max (-limit clip) (min x (limit clip - 1)) = x := by omega
      rw [hmid]
      omega

theorem sign_clipped : (clipped clip x).sign = x.sign := by
  have hlimit := (limit_bounds clip).1
  rw [clipped]
  split
  · rw [Int.sign_eq_neg_one_of_neg (a := x) (by omega)]
    rfl
  · split
    · rw [Int.sign_eq_one_of_pos (a := x) (by omega)]
      rfl
    · rw [Int.sign_mul, Int.sign_eq_one_of_pos (scale_bounds clip).2.1, Int.one_mul]

theorem clipped_bounds : -2 ^ 20 ≤ clipped clip x ∧ clipped clip x ≤ 2 ^ 20 := by
  obtain ⟨hscale, hpos, _⟩ := scale_bounds clip
  rw [clipped]
  split
  · omega
  · split
    · omega
    · rename_i hlow hhigh
      rw [← hscale, ← Int.mul_neg]
      exact ⟨Int.mul_le_mul_of_nonneg_left (by omega) hpos.le, Int.mul_le_mul_of_nonneg_left (by omega) hpos.le⟩

/-- The order of two samples is lost when just one of them is clipped and the
other comes out beyond it. -/
theorem clipped_le_iff (h : x ≤ x') : clipped clip x ≤ clipped clip x' ↔
    (x' < limit clip ∨ limit clip ≤ x ∨ 2 ^ clip.toNat * x ≤ 8191) ∧
      (-limit clip ≤ x ∨ x' < -limit clip ∨ -8192 ≤ 2 ^ clip.toNat * x') := by
  have hlimit := (limit_bounds clip).1
  have hpos := (scale_bounds clip).2.1
  have hmono : (2 : Int) ^ clip.toNat * x ≤ 2 ^ clip.toNat * x' := Int.mul_le_mul_of_nonneg_left h hpos.le
  have hneg (hx : x ≤ 0) : (2 : Int) ^ clip.toNat * x ≤ 0 := Int.mul_nonpos_of_nonneg_of_nonpos hpos.le hx
  have hnonneg (hx : 0 ≤ x') : 0 ≤ (2 : Int) ^ clip.toNat * x' := Int.mul_nonneg hpos.le hx
  rw [clipped, clipped]
  split
  · split
    · omega
    · split <;> omega
  · split
    · omega
    · split
      · omega
      · split <;> omega

end Clipped

/-- An edge of LRCLK at which the overdrive of a side is on and takes a word with
clear padding. -/
structure Taking (k : Controls) (s : State) (side : Side) : Prop where
  clocked : side = clocked (!s.lrclk)
  enable : k.sw.getLsbD 2 = true
  padding : (s.bitcrusherout side).extractLsb' 0 7 = 0

def input (s : State) (side : Side) : Int := (sample (s.bitcrusherout side)).toInt

def output (k : Controls) (s : State) (side : Side) : Int := (sample ((s.edge k).overdriveout side)).toInt

theorem output_eq {k : Controls} {s : State} {side : Side} (h : Taking k s side) :
    output k s side = clipped k.clip (input s side) := by
  have htook := (Chain.took_edge k s).overdriveout
  rw [← h.clocked, h.enable] at htook
  rw [output, htook, overdrive_sample h.padding, input]

/-- The overdrive is a hard clipper just as long as it does not clip. A clipped
sample keeps its sign, but comes out 128 times too small, so that the order of
the samples can be lost. -/
theorem overdrive_clips_iff (k : Controls) (s : State) (side : Side) (h : Taking k s side) :
    (output k s side = hardClip k.clip (input s side) ↔
      -limit k.clip ≤ input s side ∧ input s side < limit k.clip) ∧
    (output k s side).sign = (input s side).sign ∧ -2 ^ 20 ≤ output k s side ∧ output k s side ≤ 2 ^ 20 ∧
    ∀ (k' : Controls) (s' : State), Taking k' s' side → k'.clip = k.clip → input s side ≤ input s' side →
      (output k s side ≤ output k' s' side ↔
        (input s' side < limit k.clip ∨ limit k.clip ≤ input s side ∨
            2 ^ k.clip.toNat * input s side ≤ 8191) ∧
          (-limit k.clip ≤ input s side ∨ input s' side < -limit k.clip ∨
            -8192 ≤ 2 ^ k.clip.toNat * input s' side)) := by
  have hbounds := clipped_bounds k.clip (x := input s side)
  rw [output_eq h]
  refine ⟨clipped_eq_hardClip_iff _, sign_clipped _, hbounds.1, hbounds.2, fun k' s' h' hclip hle => ?_⟩
  rw [output_eq h', hclip]
  exact clipped_le_iff _ hle

def on (clip : BitVec 3) : Controls := ⟨0b100#7, 0, 0, clip, 0, 0, 0⟩

/-- Just before a rising edge of LRCLK, with a word for the left overdrive. -/
def offered (din : Word) : State := { Chain.powerUp with bitcrusherout := fun _ => din }

theorem overdrive_clips_iff_quiet : output (on 0) (offered 0x00000080#32) .left = 1 := by
  have htaking : Taking (on 0) (offered 0x00000080#32) .left := ⟨rfl, rfl, rfl⟩
  have hquiet := (overdrive_clips_iff (on 0) (offered 0x00000080#32) .left htaking).1.mpr (by decide)
  exact hquiet.trans (by decide)

/-- With CLIP at 0 the sample 2^20 should become 2^20 - 1. -/
theorem overdrive_misplaces_threshold :
    ¬ ∀ (k : Controls) (s : State) (side : Side), Taking k s side →
      output k s side = hardClip k.clip (input s side) := by
  intro h
  exact absurd (h (on 0) (offered 0x08000000#32) .left ⟨rfl, rfl, rfl⟩) (by decide)

end ECE385.Pedalboard.Clipping
