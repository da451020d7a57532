import ECE385.Arithmetic.Shifts
import ECE385.Pedalboard.Chain

namespace ECE385.Pedalboard.Amplifying

open Arithmetic.Shifts
open Chain (Controls State)
open Delay (clocked)
open Effects

inductive Stage
  | gainstager | tremolo

def Stage.enable (k : Controls) : Stage → Bool
  | .gainstager => k.sw.getLsbD 0
  | .tremolo => k.sw.getLsbD 4

def Stage.shift (k : Controls) (s : State) : Stage → Nat
  | .gainstager => k.gain.toNat
  | .tremolo => (tremclk k.tremfreq s.squarewave).toNat

def Stage.din (s : State) (side : Side) : Stage → Word
  | .gainstager => s.sampleIn side
  | .tremolo => s.delay.dout side

def Stage.dout (s : State) (side : Side) : Stage → Word
  | .gainstager => s.gainstageout side
  | .tremolo => s.tremoloout side

variable (stage : Stage) (side : Side)

/-- An edge of LRCLK at which the stage of a side is on. -/
structure Taking (k : Controls) (s : State) : Prop where
  clocked : side = clocked (!s.lrclk)
  enable : stage.enable k = true

def input (s : State) : Int := (sample (stage.din s side)).toInt

def output (k : Controls) (s : State) : Int := (sample (stage.dout (s.edge k) side)).toInt

theorem shift_lt (k : Controls) (s : State) : stage.shift k s < 24 := by
  cases stage with
  | gainstager => exact Nat.lt_of_lt_of_le k.gain.isLt (by decide)
  | tremolo => exact Nat.lt_of_le_of_lt (Bool.toNat_le _) (by decide)

section Taking

variable {stage side} {k k' : Controls} {s s' : State}

theorem dout_eq (h : Taking stage side k s) :
    stage.dout (s.edge k) side = pack (stage.din s side) (sample (stage.din s side) <<< stage.shift k s) := by
  obtain ⟨hclocked, henable⟩ := h
  have htook := Chain.took_edge k s
  rw [← hclocked] at htook
  cases stage with
  | gainstager => exact htook.gainstageout.trans (if_pos henable)
  | tremolo => exact htook.tremoloout.trans (if_pos henable)

theorem output_eq (h : Taking stage side k s) :
    output stage side k s = (sample (stage.din s side) <<< stage.shift k s).toInt := by
  rw [output, dout_eq h, sample_pack]

end Taking

section Offer

def Stage.offer (din : Word) (s : State) : Stage → State
  | .gainstager => { s with sampleIn := fun _ => din }
  | .tremolo => { s with delay := { s.delay with dout := fun _ => din } }

variable {stage side} {k : Controls} {s : State}

theorem din_offer (din : Word) : stage.din (stage.offer din s) side = din := by
  cases stage <;> rfl

theorem shift_offer (din : Word) : stage.shift k (stage.offer din s) = stage.shift k s := by
  cases stage <;> rfl

theorem Taking.offer (h : Taking stage side k s) (din : Word) : Taking stage side k (stage.offer din s) := by
  cases stage <;> exact ⟨h.clocked, h.enable⟩

end Offer

/-- The saved sign is put back above the sample, so what the later stages read is
the shifted word alone. At the edges with the shift of one at hand, all samples of a
level keep their order and their sign exactly when the level leaves room for the
shift. -/
theorem amplifying_preserves_iff (stage : Stage) (side : Side) (k : Controls) (s : State)
    (h : Taking stage side k s) (lo hi : Int) (hmin : -2 ^ 23 ≤ lo) (hlo : lo ≤ 0) (hhi : 0 ≤ hi)
    (hmax : hi < 2 ^ 23) :
    (∀ k₁ s₁ k₂ s₂, Taking stage side k₁ s₁ → Taking stage side k₂ s₂ →
        stage.shift k₁ s₁ = stage.shift k s → stage.shift k₂ s₂ = stage.shift k s →
        lo ≤ input stage side s₁ → input stage side s₁ ≤ input stage side s₂ → input stage side s₂ ≤ hi →
        output stage side k₁ s₁ ≤ output stage side k₂ s₂ ∧
          (output stage side k₁ s₁).sign = (input stage side s₁).sign) ↔
      -2 ^ (23 - stage.shift k s) ≤ lo ∧ hi < 2 ^ (23 - stage.shift k s) := by
  rw [← shiftLeft_level_iff (w := 24) (shift_lt stage k s) hmin hlo hhi hmax]
  constructor
  · intro hedges v u hv hvu hu
    have hin (w : BitVec 24) : sample (stage.din (stage.offer (pack 0 w) s) side) = w := by
      rw [din_offer, sample_pack]
    have hpair := hedges k (stage.offer (pack 0 v) s) k (stage.offer (pack 0 u) s) (h.offer _) (h.offer _)
      (shift_offer _) (shift_offer _)
    rw [output_eq (h.offer _), output_eq (h.offer _), input, input, hin, hin, shift_offer, shift_offer] at hpair
    exact hpair hv hvu hu
  · intro hwords k₁ s₁ k₂ s₂ h₁ h₂ hshift₁ hshift₂ hx hxy hy
    rw [output_eq h₁, output_eq h₂, hshift₁, hshift₂]
    exact hwords _ _ hx hxy hy

def on (gain : BitVec 2) : Controls := ⟨0b1#7, gain, 0, 0, 0, 0, 0⟩

/-- Just before a rising edge of LRCLK, with a word for the left gain stage. -/
def offered (din : Word) : State := { Chain.powerUp with sampleIn := fun _ => din }

/-- With GAIN at 3 the peaks of a quiet signal stay apart. -/
theorem amplifying_preserves_iff_quiet :
    output .gainstager .left (on 3) (offered 0x78000000#32) ≤
        output .gainstager .left (on 3) (offered 0x07ffff80#32) ∧
      (output .gainstager .left (on 3) (offered 0x78000000#32)).sign =
        (input .gainstager .left (offered 0x78000000#32)).sign := by
  have hlevel := amplifying_preserves_iff .gainstager .left (on 3) (offered 0) ⟨rfl, rfl⟩ (-2 ^ 20)
    (2 ^ 20 - 1) (by decide) (by decide) (by decide) (by decide)
  exact hlevel.mpr ⟨by decide, by decide⟩ (on 3) (offered 0x78000000#32) (on 3) (offered 0x07ffff80#32) ⟨rfl, rfl⟩
    ⟨rfl, rfl⟩ rfl rfl (by decide) (by decide) (by decide)

/-- With GAIN at 1 the sample 2^22 becomes -2^23. -/
theorem amplifying_turns_peaks :
    ¬ ∀ (stage : Stage) (side : Side) (k k' : Controls) (s s' : State), Taking stage side k s →
      Taking stage side k' s' → stage.shift k' s' = stage.shift k s → input stage side s ≤ input stage side s' →
      output stage side k s ≤ output stage side k' s' ∧
        (output stage side k s).sign = (input stage side s).sign := by
  intro h
  have hpeak := h .gainstager .left (on 1) (on 1) (offered 0x20000000#32) (offered 0x20000000#32) ⟨rfl, rfl⟩
    ⟨rfl, rfl⟩ rfl le_rfl
  exact absurd hpeak.2 (by decide)

end ECE385.Pedalboard.Amplifying
