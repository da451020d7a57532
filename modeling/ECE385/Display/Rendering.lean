import ECE385.Display.Cell
import ECE385.Display.Coherence
import ECE385.Display.Driver

namespace ECE385.Display.Rendering

open Clocked.ByteLanes Clocked.LastWrite Interface Scan Cell Driver

def inks (background foreground : BitVec 8) : BitVec 8 := (foreground <<< 4) ||| background

theorem lastStore_cons (o : Nat) (st : Store) (stores : List Store) :
    lastStore o (st :: stores) = (lastStore o stores <|> if o = st.offset then some st.value else none) := rfl

section Text

variable (px py : Nat) (background foreground : BitVec 8) (rest : List (BitVec 8)) {str : List (BitVec 8)}

def text (i : Nat) (str : List (BitVec 8)) : List Store :=
  drawFrom px py background foreground i (str ++ 0 :: rest)

theorem text_nil (i : Nat) : text px py background foreground rest i [] = [] := by
  rw [text]
  rw [List.nil_append, drawFrom]
  exact if_neg fun h => h rfl

theorem text_cons {c : BitVec 8} (hc : c ≠ 0) (i : Nat) (str : List (BitVec 8)) :
    text px py background foreground rest i (c :: str) =
      ⟨(py * columns + px + i) * 2, inks background foreground⟩ ::
        ⟨(py * columns + px + i) * 2 + 1, c⟩ :: text px py background foreground rest (i + 1) str := if_pos hc

theorem lastStore_other (hstr : ∀ c, c ∈ str → c ≠ 0) {o i : Nat}
    (ho : ∀ j, j < str.length → o / 2 ≠ py * columns + px + i + j) :
    lastStore o (text px py background foreground rest i str) = none := by
  induction str generalizing i with
  | nil => rw [text_nil]; rfl
  | cons c str ih =>
      have hfirst := ho 0 (Nat.succ_pos _)
      have hrest := ih (i := i + 1) (fun c hc => hstr c (List.mem_cons_of_mem _ hc)) fun j hj => by
        have := ho (j + 1) (Nat.succ_lt_succ hj)
        omega
      rw [text_cons px py background foreground rest (hstr c List.mem_cons_self), lastStore_cons,
        lastStore_cons, hrest, if_neg (show o ≠ (py * columns + px + i) * 2 by omega),
        if_neg (show o ≠ (py * columns + px + i) * 2 + 1 by omega)]
      rfl

/-- The text leaves its attributes and its byte in every cell it reaches. -/
theorem lastStore_text (hstr : ∀ c, c ∈ str → c ≠ 0) (i j : Nat) (hj : j < str.length) :
    lastStore (2 * (py * columns + px + i + j)) (text px py background foreground rest i str) =
      some (inks background foreground) ∧
    lastStore (2 * (py * columns + px + i + j) + 1) (text px py background foreground rest i str) =
      some str[j] := by
  induction str generalizing i j with
  | nil => exact absurd hj (Nat.not_lt_zero j)
  | cons c str ih =>
      have hstr' : ∀ c, c ∈ str → c ≠ 0 := fun c hc => hstr c (List.mem_cons_of_mem _ hc)
      rw [text_cons px py background foreground rest (hstr c List.mem_cons_self)]
      simp only [lastStore_cons]
      cases j with
      | zero =>
          -- the stores for the later bytes do not come back to this cell
          have hlater {o : Nat} (ho : o / 2 = py * columns + px + i) :
              lastStore o (text px py background foreground rest (i + 1) str) = none :=
            lastStore_other px py background foreground rest hstr' fun j _ => by omega
          rw [hlater (by omega), hlater (by omega)]
          rw [if_neg (show 2 * (py * columns + px + i + 0) ≠ (py * columns + px + i) * 2 + 1 by omega),
            if_pos (show 2 * (py * columns + px + i + 0) = (py * columns + px + i) * 2 by omega),
            if_pos (show 2 * (py * columns + px + i + 0) + 1 = (py * columns + px + i) * 2 + 1 by omega)]
          exact ⟨rfl, rfl⟩
      | succ j =>
          have hj' : j < str.length := Nat.lt_of_succ_lt_succ hj
          obtain ⟨hattr, hchar⟩ := ih hstr' (i + 1) j hj'
          have hpos : py * columns + px + (i + 1) + j = py * columns + px + i + (j + 1) := by omega
          rw [hpos] at hattr hchar
          rw [hattr, hchar]
          exact ⟨rfl, rfl⟩

theorem text_offset (hstr : ∀ c, c ∈ str → c ≠ 0) {i : Nat} {st : Store}
    (hst : st ∈ text px py background foreground rest i str) :
    st.offset < 2 * (py * columns + px + i + str.length) := by
  induction str generalizing i with
  | nil =>
      rw [text_nil] at hst
      exact absurd hst List.not_mem_nil
  | cons c str ih =>
      rw [text_cons px py background foreground rest (hstr c List.mem_cons_self)] at hst
      rw [List.length_cons]
      rcases List.mem_cons.mp hst with rfl | hst
      · show (py * columns + px + i) * 2 < _
        omega
      · rcases List.mem_cons.mp hst with rfl | hst
        · show (py * columns + px + i) * 2 + 1 < _
          omega
        · have := ih (fun c hc => hstr c (List.mem_cons_of_mem _ hc)) hst
          omega

end Text

section Bus

variable (fontRom : BitVec 11 → BitVec 8) (x : Nat → Bus) (s : State)

def writes (a : Nat) : Nat → List (Write 12)
  | 0 => []
  | k + 1 => if (x a).wren then (x a).data :: writes (a + 1) k else writes (a + 1) k

theorem run_writes (a k : Nat) :
    (run fontRom x s (a + k)).mem = (writes x a k).foldl (fun m w => w.apply m) (run fontRom x s a).mem := by
  induction k generalizing a with
  | zero => rfl
  | succ k ih =>
      have hstep : (run fontRom x s (a + 1)).mem =
          if (x a).wren then (x a).data.apply (run fontRom x s a).mem else (run fontRom x s a).mem := rfl
      rw [show a + (k + 1) = a + 1 + k by omega, ih (a + 1), hstep, writes]
      cases (x a).wren <;> rfl

/-- No write to `VRAM` at the edges from `a` up to `b`. -/
def Quiet (a b : Nat) : Prop := ∀ m, a ≤ m → m < b → (x m).wren = true → (x m).addr.getLsbD 11 = true

theorem Quiet.mem {a b : Nat} (h : Quiet x a b) (hab : a ≤ b) {addr : BitVec 12} (haddr : addr.getLsbD 11 = false) :
    (run fontRom x s b).mem addr = (run fontRom x s a).mem addr := by
  induction b, hab using Nat.le_induction with
  | base => rfl
  | succ b hab ih =>
      rw [← ih fun m ham hmb => h m ham (Nat.lt_succ_of_lt hmb)]
      refine Coherence.edge_mem_of_ne fontRom fun hw heq => ?_
      have h11 := h b hab (Nat.lt_succ_self b) hw
      rw [← heq, haddr] at h11
      exact Bool.noConfusion h11

end Bus

section Inks

variable {background : BitVec 8} (foreground : BitVec 8)

theorem inks_foreground (h : background.toNat < 16) :
    (inks background foreground).extractLsb' 4 4 = foreground.extractLsb' 0 4 := by
  apply BitVec.eq_of_getLsbD_eq
  intro i hi
  have hpow : 2 ^ 4 ≤ 2 ^ (4 + i) := Nat.pow_le_pow_right (by decide) (Nat.le_add_right 4 i)
  have hzero : background.getLsbD (4 + i) = false := Nat.testBit_lt_two_pow (Nat.lt_of_lt_of_le h hpow)
  have hlt : 4 + i < 8 := by omega
  rw [BitVec.getLsbD_extractLsb', BitVec.getLsbD_extractLsb', inks, BitVec.getLsbD_or,
    BitVec.getLsbD_shiftLeft, hzero, Bool.or_false]
  simp [hlt]

theorem inks_background : (inks background foreground).extractLsb' 0 4 = background.extractLsb' 0 4 := by
  apply BitVec.eq_of_getLsbD_eq
  intro i hi
  simp [inks, hi]

end Inks

section Frame

variable (fontRom : BitVec 11 → BitVec 8) {x : Nat → Bus} (s : State) {drawX drawY : Nat}

theorem vram_low {n : Nat} (hn : n < 2048) : (BitVec.ofNat 12 n).getLsbD 11 = false := by
  rw [BitVec.getLsbD_ofNat, Nat.testBit_eq_decide_div_mod_eq, Nat.div_eq_of_lt hn]
  rfl

theorem Quiet.byte {a b : Nat} (h : Quiet x a b) (hab : a ≤ b) {o : Nat} (ho : o < 4800) :
    byteAt (run fontRom x s b).mem o = byteAt (run fontRom x s a).mem o := by
  unfold byteAt
  rw [h.mem fontRom x s hab (vram_low (by omega))]

theorem taken_quiet (hX : drawX < 640) (hY : drawY < 480) {a n : Nat} (ha : a < n) (hquiet : Quiet x a n)
    (htakes : Takes fontRom x s n drawX drawY) :
    (run fontRom x s.reset (n + 1)).rgb =
      picture fontRom (run fontRom x s.reset a).mem (run fontRom x s.reset n).localReg drawX drawY := by
  have hc := cell_lt hX hY
  obtain ⟨m, rfl⟩ := Nat.exists_eq_succ_of_ne_zero (Nat.ne_zero_of_lt ha)
  have hlow : (vramWord drawX drawY).getLsbD 11 = false := by
    rw [vramWord_eq hX hY]
    exact vram_low (by omega)
  have hidle : (x m).wren = true → (x m).addr ≠ vramWord drawX drawY := by
    intro hw heq
    have h11 := hquiet m (Nat.le_of_lt_succ ha) (Nat.lt_succ_self m) hw
    rw [heq, hlow] at h11
    exact Bool.noConfusion h11
  have hbefore : Quiet x a m := fun k hak hkm => hquiet k hak (Nat.lt_succ_of_lt hkm)
  have hkeep := hbefore.mem fontRom x s.reset (Nat.le_of_lt_succ ha) hlow
  rw [htakes.rgb, htakes.vgaReaddata fontRom x s hidle, hkeep]
  exact pixel_eq fontRom _ (run fontRom x s.reset a).mem hX hY

end Frame

section Call

variable (fontRom : BitVec 11 → BitVec 8) {x : Nat → Bus} (s : State) {drawX drawY : Nat}
  {str rest : List (BitVec 8)} {px py : Nat} {background foreground : BitVec 8} {a k : Nat}
  (hstr : ∀ c, c ∈ str → c ≠ 0) (hfits : py * columns + px + str.length ≤ 2400)
  (hcall : List.Forall₂ Carries (writes x a k)
    (textVGADrawColorText (str ++ 0 :: rest) px py background foreground))

include hstr hfits hcall

theorem byteAt_call {o : Nat} (ho : o < 4800) :
    byteAt (run fontRom x s (a + k)).mem o =
      (lastStore o (text px py background foreground rest 0 str)).getD (byteAt (run fontRom x s a).mem o) := by
  rw [run_writes]
  refine byteAt_foldl hcall (fun st hst => ?_) _ (by omega)
  have hoffset := text_offset px py background foreground rest hstr hst
  omega

theorem cell_text {i : Nat} (hi : i < str.length) :
    attr (run fontRom x s (a + k)).mem (py * columns + px + i) = inks background foreground ∧
    character (run fontRom x s (a + k)).mem (py * columns + px + i) = str[i] := by
  obtain ⟨hattr, hchar⟩ := lastStore_text px py background foreground rest hstr 0 i hi
  simp only [Nat.add_zero] at hattr hchar
  rw [attr, character]
  rw [byteAt_call fontRom s hstr hfits hcall (by omega), byteAt_call fontRom s hstr hfits hcall (by omega),
    hattr, hchar]
  exact ⟨rfl, rfl⟩

theorem cell_other {c : Nat} (hc : c < 2400) (hother : ∀ i, i < str.length → c ≠ py * columns + px + i) :
    attr (run fontRom x s (a + k)).mem c = attr (run fontRom x s a).mem c ∧
    character (run fontRom x s (a + k)).mem c = character (run fontRom x s a).mem c := by
  have hnone {o : Nat} (ho : o / 2 = c) : lastStore o (text px py background foreground rest 0 str) = none :=
    lastStore_other px py background foreground rest hstr fun j hj => by
      rw [ho]
      exact hother j hj
  rw [attr, character]
  rw [byteAt_call fontRom s hstr hfits hcall (by omega), byteAt_call fontRom s hstr hfits hcall (by omega),
    hnone (by omega), hnone (by omega)]
  exact ⟨rfl, rfl⟩

/-- After the call every edge that takes a visible position takes the text in its
cells and in its colours. In the other cells it takes what `VRAM` held before the
call, as the edges before it did. -/
theorem text_rendered (hbackground : background.toNat < 16) (hX : drawX < 640) (hY : drawY < 480) {n : Nat}
    (htakes : Takes fontRom x s n drawX drawY) (hafter : a + k < n) (hquiet : Quiet x (a + k) n) :
    (∀ i (hi : i < str.length), cell drawX drawY = py * columns + px + i →
      (run fontRom x s.reset (n + 1)).rgb =
        if glyph fontRom str[i] drawX drawY then
          fgd (run fontRom x s.reset n).localReg (foreground.extractLsb' 0 4)
        else bkd (run fontRom x s.reset n).localReg (background.extractLsb' 0 4)) ∧
    ((∀ i, i < str.length → cell drawX drawY ≠ py * columns + px + i) →
      (run fontRom x s.reset (n + 1)).rgb =
        picture fontRom (run fontRom x s.reset a).mem (run fontRom x s.reset n).localReg drawX drawY ∧
      ∀ m, Takes fontRom x s m drawX drawY → 0 < m → m ≤ a → Quiet x (m - 1) a →
        (run fontRom x s.reset m).localReg = (run fontRom x s.reset n).localReg →
        (run fontRom x s.reset (n + 1)).rgb = (run fontRom x s.reset (m + 1)).rgb) := by
  have hc := cell_lt hX hY
  have hshown := taken_quiet fontRom s hX hY hafter hquiet htakes
  refine ⟨fun i hi hcell => ?_, fun hother => ?_⟩
  · obtain ⟨hattr, hchar⟩ := cell_text fontRom s.reset hstr hfits hcall hi
    rw [hshown]
    simp only [picture, hcell, hattr, hchar, inks_foreground foreground hbackground, inks_background]
  · obtain ⟨hattr, hchar⟩ := cell_other fontRom s.reset hstr hfits hcall hc hother
    have hpicture := hshown.trans (picture_congr hattr hchar fontRom _)
    refine ⟨hpicture, fun m htakes' hpos hbefore hquiet' hpalette => ?_⟩
    have hquiet₀ : Quiet x (m - 1) m := fun k hk hlt => hquiet' k hk (Nat.lt_of_lt_of_le hlt hbefore)
    have hback := taken_quiet fontRom s hX hY (Nat.sub_lt hpos Nat.one_pos) hquiet₀ htakes'
    have hle : m - 1 ≤ a := by omega
    rw [hpicture, hback, hpalette]
    refine picture_congr ?_ ?_ fontRom _
    · exact hquiet'.byte fontRom s.reset hle (by omega)
    · exact hquiet'.byte fontRom s.reset hle (by omega)

end Call

section Example

open Coherence

def rowOfA (addr : BitVec 11) : BitVec 8 := if addr = 16 * 0x41 then 0x20 else 0

def red : State := { powerUp with localReg := fun _ => 0x01e00000 }

def drawing (n : Nat) : Bus :=
  if n = 0 then carrying ⟨0, inks 2 1⟩ else if n = 1 then carrying ⟨1, 0x41⟩ else loading 0

theorem text_rendered_drawing : (run rowOfA drawing red.reset 5).rgb = ⟨15, 0, 0⟩ := by
  have hcall : List.Forall₂ Carries (writes drawing 0 2) (textVGADrawColorText ([0x41] ++ 0 :: []) 0 0 2 1) :=
    .cons (carries_carrying ⟨0, inks 2 1⟩) (.cons (carries_carrying ⟨1, 0x41⟩) .nil)
  have htakes : Takes rowOfA drawing red 4 2 0 :=
    (takes_iff rowOfA drawing red (by decide) (by decide) 4).mpr ⟨0, by decide⟩
  have hquiet : Quiet drawing (0 + 2) 4 := by
    intro m hm hlt hw
    interval_cases m <;> exact absurd hw (by decide)
  have hshown := (text_rendered rowOfA red (by decide) (by decide) hcall (by decide) (by decide) (by decide)
    htakes (by decide) hquiet).1 0 (by decide) (by decide)
  exact hshown.trans (by decide +kernel)

end Example

end ECE385.Display.Rendering
