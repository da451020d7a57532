import ECE385.Display.Interface

namespace ECE385.Display.Scan

open Interface

/-- The counters after `n` edges from a reset: the position moves on at every
second edge, 800 to a line and 525 lines to a frame. -/
structure Scanning (n : Nat) (s : State) : Prop where
  clkdiv : s.clkdiv = decide (n % 2 = 1)
  hc : s.hc.toNat = (n + 1) / 2 % 800
  vc : s.vc.toNat = (n + 1) / 2 / 800 % 525

section Counters

variable {hc vc : BitVec 10}

theorem toNat_hpixels : hpixels.toNat = 799 := rfl

theorem toNat_vlines : vlines.toNat = 524 := rfl

theorem toNat_succ {r : BitVec 10} (h : r.toNat < 1023) : (r + 1).toNat = r.toNat + 1 := by
  rw [BitVec.toNat_add]
  show (r.toNat + 1) % 1024 = r.toNat + 1
  omega

theorem toNat_nextHc (h : hc.toNat < 800) : (nextHc hc).toNat = (hc.toNat + 1) % 800 := by
  rw [nextHc]
  by_cases hend : hc = hpixels
  · rw [if_pos hend, hend, toNat_hpixels]
    rfl
  · have hne : hc.toNat ≠ 799 := fun heq => hend (BitVec.toNat_inj.mp (heq.trans toNat_hpixels.symm))
    rw [if_neg hend, toNat_succ (by omega), Nat.mod_eq_of_lt (by omega)]

theorem toNat_nextVc (h : vc.toNat < 525) :
    (nextVc hc vc).toNat = if hc.toNat = 799 then (vc.toNat + 1) % 525 else vc.toNat := by
  rw [nextVc]
  have hline : hc = hpixels ↔ hc.toNat = 799 := by rw [← BitVec.toNat_inj, toNat_hpixels]
  simp only [hline]
  by_cases hend : hc.toNat = 799
  · rw [if_pos hend, if_pos hend]
    by_cases hlast : vc = vlines
    · rw [if_pos hlast, hlast, toNat_vlines]
      rfl
    · have hne : vc.toNat ≠ 524 := fun heq => hlast (BitVec.toNat_inj.mp (heq.trans toNat_vlines.symm))
      rw [if_neg hlast, toNat_succ (by omega), Nat.mod_eq_of_lt (by omega)]
  · rw [if_neg hend, if_neg hend]

end Counters

section Run

variable (fontRom : BitVec 11 → BitVec 8)

theorem scanning_reset (s : State) : Scanning 0 s.reset := ⟨rfl, rfl, rfl⟩

theorem edge_counters (b : Bus) (s : State) :
    (s.edge fontRom b).clkdiv = !s.clkdiv ∧
    (s.edge fontRom b).hc = (if s.clkdiv then s.hc else nextHc s.hc) ∧
    (s.edge fontRom b).vc = (if s.clkdiv then s.vc else nextVc s.hc s.vc) := by
  refine ⟨rfl, ?_, ?_⟩
  · show (if !s.clkdiv then nextHc s.hc else s.hc) = _
    cases s.clkdiv <;> rfl
  · show (if !s.clkdiv then nextVc s.hc s.vc else s.vc) = _
    cases s.clkdiv <;> rfl

theorem Scanning.edge {n : Nat} {s : State} (h : Scanning n s) (b : Bus) :
    Scanning (n + 1) (s.edge fontRom b) := by
  obtain ⟨hdiv, hhc, hvc⟩ := edge_counters fontRom b s
  have hc := h.hc
  have vc := h.vc
  by_cases hodd : n % 2 = 1
  · have hclk : s.clkdiv = true := h.clkdiv.trans (decide_eq_true hodd)
    rw [hclk] at hdiv hhc hvc
    refine ⟨?_, ?_, ?_⟩
    · rw [hdiv, eq_comm, Bool.not_true, decide_eq_false_iff_not]
      omega
    · rw [hhc, if_pos rfl, hc]
      omega
    · rw [hvc, if_pos rfl, vc]
      omega
  · have hclk : s.clkdiv = false := h.clkdiv.trans (decide_eq_false hodd)
    rw [hclk] at hdiv hhc hvc
    have hnext : (n + 1 + 1) / 2 = (n + 1) / 2 + 1 := by omega
    refine ⟨?_, ?_, ?_⟩
    · rw [hdiv, eq_comm, Bool.not_false, decide_eq_true_iff]
      omega
    · rw [hhc, if_neg Bool.false_ne_true, toNat_nextHc (by omega), hc, hnext]
      omega
    · rw [hvc, if_neg Bool.false_ne_true, toNat_nextVc (by omega), hc, vc, hnext]
      split <;> omega

theorem scanning_run (x : Nat → Bus) (s : State) (n : Nat) : Scanning n (run fontRom x s.reset n) :=
  Clocked.Machine.run_invariant Scanning (scanning_reset s) (fun n _ h => h.edge fontRom (x n)) n

end Run

/-- The edge that takes the colour of a position of a frame. -/
def scanEdge (frame drawX drawY : Nat) : Nat := 2 * (frame * 420000 + drawY * 800 + drawX)

section Pipeline

variable (fontRom : BitVec 11 → BitVec 8) (x : Nat → Bus) (s : State) {drawX drawY : Nat}

structure Takes (n drawX drawY : Nat) : Prop where
  rising : (run fontRom x s.reset n).clkdiv = false
  drawX : (run fontRom x s.reset n).hc = BitVec.ofNat 10 drawX
  drawY : (run fontRom x s.reset n).vc = BitVec.ofNat 10 drawY

theorem takes_scanEdge (hX : drawX < 800) (hY : drawY < 525) (frame : Nat) :
    Takes fontRom x s (scanEdge frame drawX drawY) drawX drawY := by
  have h := scanning_run fontRom x s (scanEdge frame drawX drawY)
  have hpos : (scanEdge frame drawX drawY + 1) / 2 = frame * 420000 + drawY * 800 + drawX := by
    rw [scanEdge]
    omega
  refine ⟨h.clkdiv.trans (decide_eq_false (by unfold scanEdge; omega)), ?_, ?_⟩
  · apply BitVec.eq_of_toNat_eq
    rw [h.hc, hpos, BitVec.toNat_ofNat]
    omega
  · apply BitVec.eq_of_toNat_eq
    rw [h.vc, hpos, BitVec.toNat_ofNat]
    omega

/-- Every frame takes the colour of every position at one edge and at no other. -/
theorem takes_iff (hX : drawX < 800) (hY : drawY < 525) (n : Nat) :
    Takes fontRom x s n drawX drawY ↔ ∃ frame, n = scanEdge frame drawX drawY := by
  constructor
  · intro ht
    have h := scanning_run fontRom x s n
    have heven : n % 2 ≠ 1 := of_decide_eq_false (h.clkdiv.symm.trans ht.rising)
    have hhc : (n + 1) / 2 % 800 = drawX := by
      rw [← h.hc, ht.drawX, BitVec.toNat_ofNat]
      omega
    have hvc : (n + 1) / 2 / 800 % 525 = drawY := by
      rw [← h.vc, ht.drawY, BitVec.toNat_ofNat]
      omega
    exact ⟨(n + 1) / 2 / 800 / 525, by unfold scanEdge; omega⟩
  · rintro ⟨frame, rfl⟩
    exact takes_scanEdge fontRom x s hX hY frame

theorem Takes.rgb {n : Nat} (h : Takes fontRom x s n drawX drawY) :
    (run fontRom x s.reset (n + 1)).rgb =
      pixel fontRom (run fontRom x s.reset n).localReg (run fontRom x s.reset n).vgaReaddata
        (BitVec.ofNat 10 drawX) (BitVec.ofNat 10 drawY) := by
  show (if !(run fontRom x s.reset n).clkdiv then pixel .. else _) = _
  rw [h.rising, h.drawX, h.drawY]
  rfl

def vramWord (drawX drawY : Nat) : BitVec 12 :=
  (vgaAddr (BitVec.ofNat 10 drawX) (BitVec.ofNat 10 drawY)).zeroExtend 12

/-- The position stands for two edges, so the RAM has taken its address by the
edge that takes its colour. -/
theorem Takes.vgaReaddata {n : Nat} (h : Takes fontRom x s (n + 1) drawX drawY)
    (hquiet : (x n).wren = true → (x n).addr ≠ vramWord drawX drawY) :
    (run fontRom x s.reset (n + 1)).vgaReaddata = (run fontRom x s.reset n).mem (vramWord drawX drawY) := by
  have heven : (n + 1) % 2 ≠ 1 :=
    of_decide_eq_false ((scanning_run fontRom x s (n + 1)).clkdiv.symm.trans h.rising)
  have hclk : (run fontRom x s.reset n).clkdiv = true :=
    (scanning_run fontRom x s n).clkdiv.trans (decide_eq_true (by omega))
  obtain ⟨-, hhc, hvc⟩ := edge_counters fontRom (x n) (run fontRom x s.reset n)
  rw [hclk, if_pos rfl] at hhc hvc
  have hhc' : (run fontRom x s.reset n).hc = BitVec.ofNat 10 drawX := hhc.symm.trans h.drawX
  have hvc' : (run fontRom x s.reset n).vc = BitVec.ofNat 10 drawY := hvc.symm.trans h.drawY
  have haddr : (vgaAddr (run fontRom x s.reset n).hc (run fontRom x s.reset n).vc).zeroExtend 12 =
      vramWord drawX drawY := by
    rw [hhc', hvc']
    rfl
  show (if (x n).wren ∧ (x n).addr = (vgaAddr (run fontRom x s.reset n).hc _).zeroExtend 12 then _ else
    (run fontRom x s.reset n).mem ((vgaAddr (run fontRom x s.reset n).hc _).zeroExtend 12)) = _
  rw [haddr, if_neg fun hw => hquiet hw.1 hw.2]

end Pipeline

end ECE385.Display.Scan
