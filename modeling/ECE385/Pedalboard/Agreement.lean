import ECE385.Pedalboard.Delay

namespace ECE385.Pedalboard.Agreement

open Effects

/-- Two words agree on their data bits from `lo` up. Bit 31 is junk. -/
def Agree (lo : Nat) (w v : Word) : Prop := ∀ i, lo ≤ i → i < 31 → w.getLsbD i = v.getLsbD i

theorem Agree.refl (lo : Nat) (w : Word) : Agree lo w w := fun _ _ _ => rfl

theorem Agree.mono {lo hi : Nat} {w v : Word} (h : Agree lo w v) (hle : lo ≤ hi) : Agree hi w v :=
  fun i hi' => h i (hle.trans hi')

theorem Agree.sample {w v : Word} (h : Agree 7 w v) : sample w = sample v := by
  apply BitVec.eq_of_getLsbD_eq
  intro i hi
  simp only [Effects.sample, BitVec.getLsbD_extractLsb', hi, decide_true, Bool.true_and]
  exact h _ (by omega) (by omega)

theorem Agree.delaySample {w v : Word} (h : Agree 15 w v) : Delay.sample w = Delay.sample v := by
  apply BitVec.eq_of_getLsbD_eq
  intro i hi
  simp only [Delay.sample, BitVec.getLsbD_extractLsb', hi, decide_true, Bool.true_and]
  exact h _ (by omega) (by omega)

theorem getLsbD_pack (d : Word) (v : BitVec 24) {i : Nat} (hi : i < 31) :
    (pack d v).getLsbD i = if i < 7 then d.getLsbD i else v.getLsbD (i - 7) := by
  have hlow := BitVec.getLsbD_append (x := d.extractLsb' 30 1 ++ v) (y := d.extractLsb' 0 7) (i := i)
  have hhigh := BitVec.getLsbD_append (x := d.extractLsb' 30 1) (y := v) (i := i - 7)
  refine hlow.trans ?_
  by_cases h : i < 7
  · simp [h]
  · have hlt : i - 7 < 24 := by omega
    rw [if_neg h, if_neg h, hhigh, if_pos hlt]

theorem agree_pack_sample (d d' : Word) (v : BitVec 24) : Agree 7 (pack d v) (pack d' v) := by
  intro i hlo hi
  rw [getLsbD_pack d v hi, getLsbD_pack d' v hi, if_neg (by omega), if_neg (by omega)]

theorem agree_pack {d d' : Word} {v v' : BitVec 24} (hd : ∀ i, i < 7 → d.getLsbD i = d'.getLsbD i)
    (hv : v = v') : Agree 0 (pack d v) (pack d' v') := by
  subst hv
  intro i _ hi
  rw [getLsbD_pack d v hi, getLsbD_pack d' v hi]
  split
  · rename_i h
    exact hd i h
  · rfl

theorem Agree.low {w v : Word} (h : Agree 0 w v) : ∀ i, i < 7 → w.getLsbD i = v.getLsbD i :=
  fun i hi => h i (Nat.zero_le i) (by omega)

section Effects

variable {w v : Word}

theorem agree_gainstager (enable : Bool) (gain : BitVec 2) (h : Agree 0 w v) :
    Agree 0 (gainstagerOut enable gain w) (gainstagerOut enable gain v) := by
  unfold gainstagerOut
  rw [(h.mono (Nat.zero_le 7)).sample]
  split
  · exact agree_pack h.low rfl
  · exact h

theorem agree_tremolo (enable : Bool) (tremfreq : BitVec 2) (squarewave : BitVec 15) (h : Agree 0 w v) :
    Agree 0 (tremoloOut enable tremfreq squarewave w) (tremoloOut enable tremfreq squarewave v) := by
  unfold tremoloOut
  rw [(h.mono (Nat.zero_le 7)).sample]
  split
  · exact agree_pack h.low rfl
  · exact h

theorem agree_lowpassfilter (enable : Bool) (cutoff : BitVec 2) (t : Taps) (h : Agree 0 w v) :
    Agree 0 (lowpassfilterOut enable cutoff t w) (lowpassfilterOut enable cutoff t v) := by
  unfold lowpassfilterOut
  rw [(h.mono (Nat.zero_le 7)).sample]
  split
  · exact agree_pack h.low rfl
  · exact h

theorem agree_shift {lo hi : Nat} (clip : BitVec 3) (h : Agree lo w v) (hlo : lo = 0 ∨ lo + 7 ≤ hi) :
    Agree hi (w <<< clip) (v <<< clip) := by
  have hclip := clip.isLt
  intro i hi' hlt
  rw [BitVec.shiftLeft_eq', BitVec.shiftLeft_eq', BitVec.getLsbD_shiftLeft, BitVec.getLsbD_shiftLeft]
  by_cases hi : i < clip.toNat
  · simp [hi]
  · rw [h (i - clip.toNat) (by omega) (by omega)]

/-- The overdrive moves the data bits up by at most seven places. -/
theorem agree_overdrive {lo hi : Nat} (enable : Bool) (clip : BitVec 3) (h : Agree lo w v) (hlo : lo ≤ 7)
    (hhi : lo = 0 ∨ lo + 7 ≤ hi) :
    Agree hi (overdriveOut enable clip w) (overdriveOut enable clip v) := by
  have hshift := agree_shift clip h hhi
  unfold overdriveOut
  rw [(h.mono hlo).sample]
  cases enable with
  | false => exact h.mono (by omega)
  | true =>
      simp only [if_true]
      split
      · split
        · exact .refl _ _
        · exact hshift
      · split
        · exact .refl _ _
        · exact hshift

end Effects

section Bitcrusher

variable {din din' : Side → Word}

theorem agree_bitcrusher_sample (side : Side) (enable : Bool) (bitdepth : BitVec 3)
    (h : Agree 7 (din side) (din' side)) :
    Agree 7 (bitcrusherOut side enable bitdepth din) (bitcrusherOut side enable bitdepth din') := by
  unfold bitcrusherOut
  rw [h.sample]
  split
  · exact agree_pack_sample _ _ _
  · exact h

/-- The lowest seven bits that leave the bitcrusher, on either side, are those of
the left word. -/
theorem agree_bitcrusher (side : Side) (enable : Bool) (bitdepth : BitVec 3)
    (h : Agree 0 (din side) (din' side))
    (hlow : enable = true → ∀ i, i < 7 → (din .left).getLsbD i = (din' .left).getLsbD i) :
    Agree 0 (bitcrusherOut side enable bitdepth din) (bitcrusherOut side enable bitdepth din') := by
  unfold bitcrusherOut
  rw [(h.mono (Nat.zero_le 7)).sample]
  split
  · rename_i henable
    exact agree_pack (hlow henable) rfl
  · exact h

end Bitcrusher

theorem agree_delay {w v : Word} (enable : Bool) (q : BitVec 16) (h : Agree 15 w v)
    (hoff : enable = false → Agree 0 w v) : Agree 0 (Delay.out enable w q) (Delay.out enable v q) := by
  rw [Delay.out]
  rw [h.delaySample]
  cases enable with
  | false => exact hoff rfl
  | true => exact .refl _ _

end ECE385.Pedalboard.Agreement
