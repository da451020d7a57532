import ECE385.Display.Interface

namespace ECE385.Display.Coherence

open Clocked.ByteLanes Interface

structure Zeroed (s : State) : Prop where
  mem : ∀ a, s.mem a = 0
  localReg : ∀ i, s.localReg i = 0

def loading (addr : BitVec 12) : Bus := ⟨true, false, true, 0b1111, addr, 0, 0, 0⟩

/-- The word that a read of the Avalon port returns. -/
def avalonRead (fontRom : BitVec 11 → BitVec 8) (s : State) (addr : BitVec 12) : BitVec 32 :=
  (s.edge fontRom (loading addr)).readdata

theorem avalonRead_eq (fontRom : BitVec 11 → BitVec 8) (s : State) (addr : BitVec 12) :
    avalonRead fontRom s addr = s.mem addr := rfl

def paletteWord (i : BitVec 3) : BitVec 12 := 0x800 + i.zeroExtend 12

def Coherent (fontRom : BitVec 11 → BitVec 8) (s : State) : Prop :=
  ∀ i, avalonRead fontRom s (paletteWord i) = s.localReg i

/-- The write changes both copies of the palette alike. -/
structure Keeps (x : Write 12) (s : State) : Prop where
  lanes : x.addr.getLsbD 11 = true → x.addr.extractLsb' 3 8 = 0 →
    ∀ k, k < 4 → x.byteEn.getLsbD k = false → lane k x.data = lane k (s.mem x.addr)
  mirror : x.addr.getLsbD 11 = true → x.addr.extractLsb' 3 8 ≠ 0 →
    x.data = s.localReg (x.addr.extractLsb' 0 3)

section Address

theorem toNat_paletteWord (i : BitVec 3) : (paletteWord i).toNat = 2048 + i.toNat := by
  have hi := i.isLt
  have hbase : (0x800 : BitVec 12).toNat = 2048 := rfl
  have hext : (i.zeroExtend 12).toNat = i.toNat :=
    (BitVec.toNat_setWidth 12 i).trans (Nat.mod_eq_of_lt (by omega))
  rw [paletteWord, BitVec.toNat_add, hext, hbase]
  exact Nat.mod_eq_of_lt (by omega)

theorem paletteWord_eq_iff (i : BitVec 3) (a : BitVec 12) :
    paletteWord i = a ↔ a.getLsbD 11 = true ∧ a.extractLsb' 3 8 = 0 ∧ i = a.extractLsb' 0 3 := by
  have ha := a.isLt
  have hi := i.isLt
  have hbit : a.getLsbD 11 = true ↔ a.toNat / 2048 % 2 = 1 := by
    rw [BitVec.getLsbD, Nat.testBit_eq_decide_div_mod_eq, decide_eq_true_iff]
  rw [hbit, ← BitVec.toNat_inj, ← BitVec.toNat_inj, ← BitVec.toNat_inj, toNat_paletteWord,
    toNat_field, toNat_field, Nat.pow_zero, Nat.div_one]
  show 2048 + i.toNat = a.toNat ↔ _ ∧ a.toNat / 8 % 256 = 0 ∧ i.toNat = a.toNat % 8
  omega

end Address

section Step

variable (fontRom : BitVec 11 → BitVec 8) {b : Bus} {s : State}

theorem edge_mem_idle (hw : b.wren = false) : (s.edge fontRom b).mem = s.mem := by
  show (if b.wren then b.data.apply s.mem else s.mem) = s.mem
  rw [hw]
  rfl

theorem edge_mem (hw : b.wren = true) : (s.edge fontRom b).mem = b.data.apply s.mem := by
  show (if b.wren then b.data.apply s.mem else s.mem) = b.data.apply s.mem
  rw [hw]
  rfl

theorem edge_mem_of_ne {a : BitVec 12} (h : b.wren = true → a ≠ b.addr) : (s.edge fontRom b).mem a = s.mem a := by
  cases hw : b.wren with
  | false => rw [edge_mem_idle fontRom hw]
  | true =>
      rw [edge_mem fontRom hw]
      exact b.data.apply_of_ne s.mem (h hw)

theorem edge_localReg_keep (h : b.wren = true → b.addr.getLsbD 11 = false) :
    (s.edge fontRom b).localReg = s.localReg := by
  show (if b.wren && b.addr.getLsbD 11 then _ else _) = _
  cases hw : b.wren with
  | false => rfl
  | true => rw [h hw]; rfl

theorem edge_localReg (hw : b.wren = true) (h11 : b.addr.getLsbD 11 = true) :
    (s.edge fontRom b).localReg = Function.update s.localReg (b.addr.extractLsb' 0 3) b.writedata := by
  show (if b.wren && b.addr.getLsbD 11 then _ else _) = _
  rw [hw, h11]
  rfl

variable (hs : Coherent fontRom s)

include hs

theorem coherent_away (h : b.wren = true → b.addr.getLsbD 11 = false) : Coherent fontRom (s.edge fontRom b) := by
  intro i
  have hne (hw : b.wren = true) : paletteWord i ≠ b.addr := by
    intro heq
    have h11 := ((paletteWord_eq_iff i b.addr).mp heq).1
    rw [h hw] at h11
    exact Bool.noConfusion h11
  rw [avalonRead_eq, edge_mem_of_ne fontRom hne, edge_localReg_keep fontRom h]
  exact hs i

/-- Only the word under the written register is in question. -/
theorem coherent_write_iff (hw : b.wren = true) (h11 : b.addr.getLsbD 11 = true) :
    Coherent fontRom (s.edge fontRom b) ↔
      (s.edge fontRom b).mem (paletteWord (b.addr.extractLsb' 0 3)) = b.writedata := by
  have hreg := edge_localReg fontRom (s := s) hw h11
  constructor
  · intro h
    refine (h (b.addr.extractLsb' 0 3)).trans ?_
    rw [hreg, Function.update_self]
  · intro h i
    rw [avalonRead_eq, hreg]
    by_cases hi : i = b.addr.extractLsb' 0 3
    · rw [hi, h, Function.update_self]
    · have hne : paletteWord i ≠ b.addr := fun heq => hi ((paletteWord_eq_iff i b.addr).mp heq).2.2
      rw [edge_mem_of_ne fontRom fun _ => hne, Function.update_of_ne hi]
      exact hs i

theorem coherent_lanes_iff (hw : b.wren = true) (h11 : b.addr.getLsbD 11 = true)
    (hword : b.addr.extractLsb' 3 8 = 0) : Coherent fontRom (s.edge fontRom b) ↔
      ∀ k, k < 4 → b.byteEn.getLsbD k = false → lane k b.writedata = lane k (s.mem b.addr) := by
  have haddr : paletteWord (b.addr.extractLsb' 0 3) = b.addr :=
    (paletteWord_eq_iff (b.addr.extractLsb' 0 3) b.addr).mpr ⟨h11, hword, rfl⟩
  have hmerge : (s.edge fontRom b).mem b.addr = merge b.byteEn (s.mem b.addr) b.writedata := by
    rw [edge_mem fontRom hw]
    exact b.data.apply_same s.mem
  rw [coherent_write_iff fontRom hs hw h11, haddr, hmerge, merge_eq_iff]
  constructor
  · intro h k hk hoff
    exact (h k hk).trans (if_neg (by rw [hoff]; decide))
  · intro h k hk
    split
    · rfl
    · rename_i hoff
      exact h k hk (Bool.eq_false_of_not_eq_true hoff)

theorem coherent_mirror_iff (hw : b.wren = true) (h11 : b.addr.getLsbD 11 = true)
    (hword : b.addr.extractLsb' 3 8 ≠ 0) : Coherent fontRom (s.edge fontRom b) ↔
      b.writedata = s.localReg (b.addr.extractLsb' 0 3) := by
  have hne : paletteWord (b.addr.extractLsb' 0 3) ≠ b.addr :=
    fun heq => hword ((paletteWord_eq_iff (b.addr.extractLsb' 0 3) b.addr).mp heq).2.1
  have hread := hs (b.addr.extractLsb' 0 3)
  rw [avalonRead_eq] at hread
  rw [coherent_write_iff fontRom hs hw h11, edge_mem_of_ne fontRom fun _ => hne, hread]
  exact eq_comm

theorem coherent_edge_iff : Coherent fontRom (s.edge fontRom b) ↔ (b.wren = true → Keeps b.data s) := by
  by_cases hpal : b.wren = true ∧ b.addr.getLsbD 11 = true
  · obtain ⟨hw, h11⟩ := hpal
    by_cases hword : b.addr.extractLsb' 3 8 = 0
    · rw [coherent_lanes_iff fontRom hs hw h11 hword]
      exact ⟨fun h _ => ⟨fun _ _ => h, fun _ hne => absurd hword hne⟩, fun h => (h hw).lanes h11 hword⟩
    · rw [coherent_mirror_iff fontRom hs hw h11 hword]
      exact ⟨fun h _ => ⟨fun _ hzero => absurd hzero hword, fun _ _ => h⟩, fun h => (h hw).mirror h11 hword⟩
  · have haway (hw : b.wren = true) : b.addr.getLsbD 11 = false :=
      Bool.eq_false_of_not_eq_true fun h11 => hpal ⟨hw, h11⟩
    refine ⟨fun _ hw => ⟨fun h11 => ?_, fun h11 => ?_⟩, fun _ => coherent_away fontRom hs haway⟩
    · exact absurd ⟨hw, h11⟩ hpal
    · exact absurd ⟨hw, h11⟩ hpal

end Step

section Run

variable (fontRom : BitVec 11 → BitVec 8) (x : Nat → Bus) {s : State}

theorem coherent_zeroed (h : Zeroed s) : Coherent fontRom s := by
  intro i
  rw [avalonRead_eq, h.mem, h.localReg]

/-- The copies stay the same just as long as every write changes both alike. -/
theorem palette_coherent_iff (h : Zeroed s) (n : Nat) :
    (∀ m, m ≤ n → Coherent fontRom (run fontRom x s m)) ↔
      ∀ m, m < n → (x m).wren = true → Keeps (x m).data (run fontRom x s m) := by
  constructor
  · intro hcoh m hm
    exact (coherent_edge_iff fontRom (hcoh m (Nat.le_of_lt hm))).mp (hcoh (m + 1) hm)
  · intro hkeep m
    induction m with
    | zero => exact fun _ => coherent_zeroed fontRom h
    | succ m ih =>
        intro hm
        exact (coherent_edge_iff fontRom (ih (Nat.le_of_succ_le hm))).mpr (hkeep m hm)

end Run

def powerUp : State := ⟨fun _ => 0, 0, 0, fun _ => 0, false, 0, 0, ⟨0, 0, 0⟩⟩

def storing (addr : BitVec 12) (byteEn : BitVec 4) (data : BitVec 32) : Bus :=
  ⟨false, true, true, byteEn, addr, data, 0, 0⟩

def carrying (st : Store) : Bus :=
  storing (BitVec.ofNat 12 (st.offset / 4)) (1#4 <<< (st.offset % 4)) (st.value ++ st.value ++ st.value ++ st.value)

theorem carries_carrying (st : Store) : Carries (carrying st).data st := by
  refine ⟨rfl, rfl, ?_⟩
  have happend := lane_append st.value st.value st.value st.value
  have hlane : st.offset % 4 < 4 := Nat.mod_lt _ (by decide)
  show lane (st.offset % 4) (st.value ++ st.value ++ st.value ++ st.value) = st.value
  interval_cases st.offset % 4
  · exact happend.1
  · exact happend.2.1
  · exact happend.2.2.1
  · exact happend.2.2.2

def agreeing (n : Nat) : Bus :=
  if n = 0 then storing 0x803 0b1111 0x00aa0055 else storing 0x803 0b0001 0x00aa0077

theorem palette_coherent_agreeing : Coherent (fun _ => 0) (run (fun _ => 0) agreeing powerUp 2) := by
  have hzero : Zeroed powerUp := ⟨fun _ => rfl, fun _ => rfl⟩
  refine (palette_coherent_iff (fun _ => 0) agreeing hzero 2).mpr ?_ 2 le_rfl
  intro m hm _
  interval_cases m
  · exact ⟨by decide, by decide⟩
  · exact ⟨by decide +kernel, by decide +kernel⟩

/-- One byte of the first palette word: the register takes all four. -/
theorem byte_store_splits_palette :
    ¬Coherent (fun _ => 0) (run (fun _ => 0) (fun _ => storing 0x800 0b0001 0xffffffff) powerUp 1) := by
  intro h
  exact absurd (h 0) (by decide +kernel)

end ECE385.Display.Coherence
