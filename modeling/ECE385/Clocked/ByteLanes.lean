import ECE385.Clocked.LastWrite
import Mathlib.Data.BitVec
import Mathlib.Tactic.IntervalCases

namespace ECE385.Clocked.ByteLanes

open LastWrite

def lane (k : Nat) (x : BitVec 32) : BitVec 8 := x.extractLsb' (8 * k) 8

/-- A write with byte enables takes the enabled bytes from the new word. -/
def merge (byteEn : BitVec 4) (old new : BitVec 32) : BitVec 32 :=
  let pick (k : Nat) := if byteEn.getLsbD k then lane k new else lane k old
  pick 3 ++ pick 2 ++ pick 1 ++ pick 0

theorem toNat_field {n : Nat} (x : BitVec n) (start len : Nat) :
    (x.extractLsb' start len).toNat = x.toNat / 2 ^ start % 2 ^ len := by
  rw [BitVec.extractLsb'_toNat, Nat.shiftRight_eq_div_pow]

theorem lane_append (b3 b2 b1 b0 : BitVec 8) :
    lane 0 (b3 ++ b2 ++ b1 ++ b0) = b0 ∧ lane 1 (b3 ++ b2 ++ b1 ++ b0) = b1 ∧
    lane 2 (b3 ++ b2 ++ b1 ++ b0) = b2 ∧ lane 3 (b3 ++ b2 ++ b1 ++ b0) = b3 := by
  unfold lane
  refine ⟨?_, ?_, ?_, ?_⟩ <;> ext i hi <;> grind

theorem lane_merge (byteEn : BitVec 4) (old new : BitVec 32) {k : Nat} (hk : k < 4) :
    lane k (merge byteEn old new) = if byteEn.getLsbD k then lane k new else lane k old := by
  have happend := lane_append
  rw [merge]
  interval_cases k
  · exact (happend _ _ _ _).1
  · exact (happend _ _ _ _).2.1
  · exact (happend _ _ _ _).2.2.1
  · exact (happend _ _ _ _).2.2.2

theorem eq_of_lane_eq {x y : BitVec 32} (h : ∀ k, k < 4 → lane k x = lane k y) : x = y := by
  apply BitVec.eq_of_getLsbD_eq
  intro i hi
  have hbit := congrArg (fun v => v.getLsbD (i % 8)) (h (i / 8) (by omega))
  have hi' : 8 * (i / 8) + i % 8 = i := Nat.div_add_mod i 8
  simpa [lane, BitVec.getLsbD_extractLsb', hi', Nat.mod_lt] using hbit

theorem merge_eq_iff {byteEn : BitVec 4} {old new x : BitVec 32} :
    merge byteEn old new = x ↔
      ∀ k, k < 4 → lane k x = if byteEn.getLsbD k then lane k new else lane k old := by
  constructor
  · rintro rfl k hk
    exact lane_merge byteEn old new hk
  · intro h
    apply eq_of_lane_eq
    intro k hk
    rw [lane_merge byteEn old new hk, h k hk]

theorem merge_all (old new : BitVec 32) : merge 0b1111#4 old new = new :=
  merge_eq_iff.mpr fun k hk => by interval_cases k <;> rfl

section Memory

variable {w : Nat}

structure Write (w : Nat) where
  addr : BitVec w
  byteEn : BitVec 4
  data : BitVec 32

def Write.apply (x : Write w) (mem : BitVec w → BitVec 32) : BitVec w → BitVec 32 :=
  Function.update mem x.addr (merge x.byteEn (mem x.addr) x.data)

theorem Write.apply_same (x : Write w) (mem : BitVec w → BitVec 32) :
    x.apply mem x.addr = merge x.byteEn (mem x.addr) x.data := Function.update_self ..

theorem Write.apply_of_ne (x : Write w) (mem : BitVec w → BitVec 32) {a : BitVec w} (h : a ≠ x.addr) :
    x.apply mem a = mem a := Function.update_of_ne h ..

/-- The byte at a byte address, little-endian. -/
def byteAt (mem : BitVec w → BitVec 32) (o : Nat) : BitVec 8 := lane (o % 4) (mem (BitVec.ofNat w (o / 4)))

structure Store where
  offset : Nat
  value : BitVec 8

/-- The write stores one byte. The other lanes of its data are free. -/
structure Carries (x : Write w) (st : Store) : Prop where
  addr : x.addr = BitVec.ofNat w (st.offset / 4)
  byteEn : x.byteEn = 1#4 <<< (st.offset % 4)
  data : lane (st.offset % 4) x.data = st.value

theorem getLsbD_one_shift (j k : Nat) (hj : j < 4) (hk : k < 4) :
    (1#4 <<< j).getLsbD k = decide (k = j) := by
  interval_cases j <;> interval_cases k <;> rfl

theorem ofNat_inj_of_lt {m n : Nat} (hm : m < 2 ^ w) (hn : n < 2 ^ w) :
    BitVec.ofNat w m = BitVec.ofNat w n ↔ m = n := by
  rw [← BitVec.toNat_inj, BitVec.toNat_ofNat, BitVec.toNat_ofNat, Nat.mod_eq_of_lt hm, Nat.mod_eq_of_lt hn]

theorem Carries.byteAt_apply {x : Write w} {st : Store} (h : Carries x st) (hst : st.offset < 4 * 2 ^ w)
    (mem : BitVec w → BitVec 32) {o : Nat} (ho : o < 4 * 2 ^ w) :
    byteAt (x.apply mem) o = if o = st.offset then st.value else byteAt mem o := by
  unfold byteAt
  by_cases hword : o / 4 = st.offset / 4
  · have haddr : BitVec.ofNat w (o / 4) = x.addr := by rw [h.addr, hword]
    rw [haddr, x.apply_same, lane_merge _ _ _ (Nat.mod_lt _ (by decide)), h.byteEn,
      getLsbD_one_shift _ _ (Nat.mod_lt _ (by decide)) (Nat.mod_lt _ (by decide))]
    by_cases hlane : o % 4 = st.offset % 4
    · have heq : o = st.offset := by omega
      rw [if_pos (decide_eq_true hlane), if_pos heq, hlane]
      exact h.data
    · have hne : o ≠ st.offset := fun heq => hlane (by rw [heq])
      rw [if_neg (by simpa using hlane), if_neg hne]
  · have hne : BitVec.ofNat w (o / 4) ≠ x.addr := by
      rw [h.addr, Ne, ofNat_inj_of_lt (by omega) (by omega)]
      exact hword
    have hoff : o ≠ st.offset := fun heq => hword (by rw [heq])
    rw [x.apply_of_ne mem hne, if_neg hoff]

def lastStore (o : Nat) (stores : List Store) : Option (BitVec 8) :=
  lastOf (fun st => if o = st.offset then some st.value else none) stores

theorem lastStore_getD (o : Nat) (st : Store) (stores : List Store) (v : BitVec 8) :
    (lastStore o (st :: stores)).getD v = (lastStore o stores).getD (if o = st.offset then st.value else v) := by
  have hcons := lastOf_cons_getD (fun st : Store => if o = st.offset then some st.value else none) st stores v
  refine hcons.trans ?_
  split <;> rfl

/-- Writes that carry the stores in order leave the last store at every offset. -/
theorem byteAt_foldl {xs : List (Write w)} {stores : List Store} (h : List.Forall₂ Carries xs stores)
    (hstores : ∀ st, st ∈ stores → st.offset < 4 * 2 ^ w) (mem : BitVec w → BitVec 32) {o : Nat}
    (ho : o < 4 * 2 ^ w) :
    byteAt (xs.foldl (fun m x => x.apply m) mem) o = (lastStore o stores).getD (byteAt mem o) := by
  induction h generalizing mem with
  | nil => rfl
  | cons hcarries _ ih =>
      rw [List.foldl_cons, ih (fun st hst => hstores st (List.mem_cons_of_mem _ hst)),
        hcarries.byteAt_apply (hstores _ List.mem_cons_self) mem ho, lastStore_getD]

end Memory

end ECE385.Clocked.ByteLanes
