import Mathlib.Data.BitVec

namespace ECE385.Pedalboard.Effects

abbrev Word := BitVec 32

/-- The 24 bits that the effects work on; bits 6 to 0 are padding of the codec,
bit 31 is the junk bit of the serial format. -/
def sample (d : Word) : BitVec 24 := d.extractLsb' 7 24

def pack (d : Word) (v : BitVec 24) : Word := d.extractLsb' 30 1 ++ v ++ d.extractLsb' 0 7

theorem sample_pack (d : Word) (v : BitVec 24) : sample (pack d v) = v := by
  ext i hi
  have hlow := BitVec.getLsbD_append (x := d.extractLsb' 30 1 ++ v) (y := d.extractLsb' 0 7) (i := 7 + i)
  have hhigh := BitVec.getLsbD_append (x := d.extractLsb' 30 1) (y := v) (i := i)
  rw [if_neg (Nat.not_lt.mpr (Nat.le_add_right ..)), Nat.add_sub_cancel_left, hhigh, if_pos hi] at hlow
  rw [sample, BitVec.getElem_extractLsb', ← BitVec.getLsbD_eq_getElem]
  exact hlow

inductive Side
  | left | right
  deriving DecidableEq

def gainstagerOut (enable : Bool) (gain : BitVec 2) (din : Word) : Word :=
  if enable then pack din (sample din <<< gain) else din

def actualbitdepth (bitdepth : BitVec 3) : BitVec 5 := bitdepth.setWidth 5 + 0b01100#5

def crushed (bitdepth : BitVec 3) (v : BitVec 24) : BitVec 24 :=
  v >>> actualbitdepth bitdepth <<< actualbitdepth bitdepth

/-- outL and outR of the bitcrusher. Both are packed with the bits of the left
word around the sample. -/
def bitcrusherOut (side : Side) (enable : Bool) (bitdepth : BitVec 3) (din : Side → Word) : Word :=
  if enable then pack (din .left) (crushed bitdepth (sample (din side))) else din side

def checker (clip : BitVec 3) : BitVec 10 := 0b1111111111#10 <<< (clip ^^^ 0b111#3)

def threshold (clip : BitVec 3) : BitVec 24 :=
  0#1 ++ (checker clip ^^^ 0b1111111111#10) ++ 0b1111111111111#13

def overdriveOut (enable : Bool) (clip : BitVec 3) (din : Word) : Word :=
  let data := sample din
  if enable then
    if data.getLsbD 23 = false then
      if checker clip &&& data.extractLsb' 13 10 ≠ 0 then (threshold clip).setWidth 32 <<< clip
      else din <<< clip
    else
      -- the inversion is in the 32-bit context of the assignment
      if ~~~(~~~checker clip ||| data.extractLsb' 13 10) ≠ 0 then ~~~(threshold clip).setWidth 32 <<< clip
      else din <<< clip
  else din

def tremclk (tremfreq : BitVec 2) (squarewave : BitVec 15) : Bool := squarewave.getLsbD (14 - tremfreq.toNat)

def tremoloOut (enable : Bool) (tremfreq : BitVec 2) (squarewave : BitVec 15) (din : Word) : Word :=
  if enable then pack din (sample din <<< (tremclk tremfreq squarewave).toNat) else din

/-- The past samples of one channel: `store`, then past 1 to 15. -/
structure Taps where
  store : BitVec 24
  past : Fin 15 → BitVec 24

def Taps.shift (t : Taps) (data : BitVec 24) : Taps where
  store := data
  past := Fin.cons t.store fun i : Fin 14 => t.past i.castSucc

/-- The mean of the present sample and of 1, 3, 7 or 15 past ones. Each term is
divided before the sum. -/
def average (cutoff : BitVec 2) (data : BitVec 24) (t : Taps) : BitVec 24 :=
  let k := cutoff.toNat + 1
  ((List.finRange 15).take (2 ^ k - 1)).foldl (fun sum i => sum + (t.past i).sshiftRight k)
    (data.sshiftRight k)

def lowpassfilterOut (enable : Bool) (cutoff : BitVec 2) (t : Taps) (din : Word) : Word :=
  if enable then pack din (average cutoff (sample din) t) else din

end ECE385.Pedalboard.Effects
