import ECE385.Display.Palette
import ECE385.Display.Rendering

namespace ECE385.Display.Trace

open Clocked.ByteLanes Coherence Driver Interface Palette

variable {fontRom : BitVec 11 → BitVec 8} {s t u : State} {ops : List Op}

def stores : Op → Option Store
  | .setColorPalette .. => none
  | .store st => some st

theorem wait_mem (h : Executes fontRom s [] t) : t.mem = s.mem := by
  generalize hops : ([] : List Op) = ops at h
  induction h with
  | done s => rfl
  | wait b hb _ ih => rw [ih hops, edge_mem_idle fontRom hb]
  | store => cases hops
  | setColorPalette => cases hops

theorem palette_byteAt {color : BitVec 8} (hcolor : color.toNat < 16) {b : Bus} (hb : b.wren = true)
    (haddr : b.addr = paletteAddr color) (s : State) {o : Nat} (ho : o < 4800) :
    byteAt (s.edge fontRom b).mem o = byteAt s.mem o := by
  obtain ⟨h11, -, -⟩ := (paletteWord_eq_iff (pair color) b.addr).mp ((paletteAddr_eq hcolor).symm.trans haddr.symm)
  have hword : BitVec.ofNat 12 (o / 4) ≠ b.addr := by
    intro heq
    have hlow : (BitVec.ofNat 12 (o / 4)).getLsbD 11 = false := Rendering.vram_low (by omega)
    rw [heq, h11] at hlow
    exact Bool.noConfusion hlow
  unfold byteAt
  rw [edge_mem fontRom hb]
  exact congrArg (lane (o % 4)) (b.data.apply_of_ne s.mem hword)

/-- The bytes of `VRAM` come from the stores alone. -/
theorem executes_byteAt (h : Executes fontRom s ops t) (hops : ∀ op, op ∈ ops → op.Valid) {o : Nat}
    (ho : o < 4800) : byteAt t.mem o = (lastStore o (ops.filterMap stores)).getD (byteAt s.mem o) := by
  induction h with
  | done s => rfl
  | wait b hb _ ih => rw [ih hops, edge_mem_idle fontRom hb]
  | store st b hb hcarries _ ih =>
      have hst : st.offset < 4800 := hops (.store st) List.mem_cons_self
      rw [ih fun op hop => hops op (List.mem_cons_of_mem _ hop), edge_mem fontRom hb,
        hcarries.byteAt_apply (by omega) _ (by omega)]
      exact (lastStore_getD ..).symm
  | setColorPalette color red green blue r b hr hquiet hraddr hwait hb haddr hbyteEn hdata _ _ ih =>
      have hcolor := (hops (.setColorPalette color red green blue) List.mem_cons_self).1
      rw [ih fun op hop => hops op (List.mem_cons_of_mem _ hop), palette_byteAt hcolor hb haddr _ ho]
      unfold byteAt
      rw [wait_mem hwait, edge_mem_idle fontRom hquiet]
      rfl

theorem exists_edges (h : Executes fontRom s ops t) :
    ∃ bs : List Bus, t = bs.foldl (fun s b => s.edge fontRom b) s := by
  induction h with
  | done s => exact ⟨[], rfl⟩
  | wait b _ _ ih =>
      obtain ⟨bs, rfl⟩ := ih
      exact ⟨b :: bs, rfl⟩
  | store _ b _ _ _ ih =>
      obtain ⟨bs, rfl⟩ := ih
      exact ⟨b :: bs, rfl⟩
  | setColorPalette _ _ _ _ r b _ _ _ _ _ _ _ _ _ ihwait ih =>
      obtain ⟨bs, rfl⟩ := ihwait
      obtain ⟨cs, rfl⟩ := ih
      exact ⟨r :: bs ++ b :: cs, by rw [List.cons_append, List.foldl_cons, List.foldl_append]; rfl⟩

end ECE385.Display.Trace
