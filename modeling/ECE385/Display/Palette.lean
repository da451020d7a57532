import ECE385.Display.Coherence
import ECE385.Display.Driver

namespace ECE385.Display.Palette

open Clocked.ByteLanes Clocked.LastWrite Interface Coherence Driver

/-- What the software does to the interface. -/
inductive Op
  | setColorPalette (color red green blue : BitVec 8)
  | store (s : Store)

/-- The arguments that the callers pass, and stores into `VRAM` only. -/
def Op.Valid : Op → Prop
  | .setColorPalette color red green blue =>
      color.toNat < 16 ∧ red.toNat < 16 ∧ green.toNat < 16 ∧ blue.toNat < 16
  | .store s => s.offset < 4800

/-- The operations carried out on the bus, in order, with any cycles that do not
write between their transactions. -/
inductive Executes (fontRom : BitVec 11 → BitVec 8) : State → List Op → State → Prop
  | done (s : State) : Executes fontRom s [] s
  | wait {s t : State} {ops : List Op} (b : Bus) (hb : b.wren = false) :
      Executes fontRom (s.edge fontRom b) ops t → Executes fontRom s ops t
  | store {s t : State} {ops : List Op} (st : Store) (b : Bus) (hb : b.wren = true)
      (hcarries : Carries b.data st) :
      Executes fontRom (s.edge fontRom b) ops t → Executes fontRom s (.store st :: ops) t
  | setColorPalette {s t u : State} {ops : List Op} (color red green blue : BitVec 8) (r b : Bus)
      (hr : r.rden = true) (hquiet : r.wren = false) (hraddr : r.addr = paletteAddr color)
      (hwait : Executes fontRom (s.edge fontRom r) [] u)
      (hb : b.wren = true) (haddr : b.addr = paletteAddr color) (hbyteEn : b.byteEn = 0b1111#4)
      (hdata : b.writedata = recolour color red green blue (s.edge fontRom r).readdata) :
      Executes fontRom (u.edge fontRom b) ops t → Executes fontRom s (.setColorPalette color red green blue :: ops) t

def low (b : BitVec 8) : BitVec 4 := b.extractLsb' 0 4

def Op.colour (c : BitVec 4) : Op → Option Rgb
  | .store _ => none
  | .setColorPalette color red green blue =>
      if color.toNat = c.toNat then some ⟨low red, low green, low blue⟩ else none

def lastCall (c : BitVec 4) (ops : List Op) : Option Rgb := lastOf (Op.colour c) ops

section Entry

variable {color red green blue : BitVec 8} (reg : BitVec 3 → BitVec 32) (current : BitVec 32)
  (hcolor : color.toNat < 16) (hr : red.toNat < 16) (hg : green.toNat < 16) (hb : blue.toNat < 16)

def pair (color : BitVec 8) : BitVec 3 := BitVec.ofNat 3 (color.toNat / 2)

theorem toNat_low {b : BitVec 8} (h : b.toNat < 16) : (low b).toNat = b.toNat := by
  rw [low, toNat_field, Nat.pow_zero, Nat.div_one]
  exact Nat.mod_eq_of_lt h

theorem odd_iff (c : BitVec 4) : c.getLsbD 0 = true ↔ c.toNat % 2 = 1 := by
  rw [BitVec.getLsbD, Nat.testBit_eq_decide_div_mod_eq, decide_eq_true_iff, Nat.pow_zero, Nat.div_one]

theorem toNat_half (c : BitVec 4) : (c.extractLsb' 1 3).toNat = c.toNat / 2 := by
  have hc := c.isLt
  rw [toNat_field]
  omega

include hcolor in
theorem toNat_pair : (pair color).toNat = color.toNat / 2 := by
  rw [pair, BitVec.toNat_ofNat]
  omega

include hcolor in
theorem paletteAddr_eq : paletteAddr color = paletteWord (pair color) := by
  apply BitVec.eq_of_toNat_eq
  rw [toNat_paletteWord, toNat_pair hcolor, paletteAddr, BitVec.toNat_add, BitVec.toNat_ofNat]
  show (2048 + color.toNat / 2 % 2 ^ 12) % 2 ^ 12 = 2048 + color.toNat / 2
  omega

include hcolor hr hg hb

theorem entry_recolour_self {c : BitVec 4} (hc : color.toNat = c.toNat) :
    entry (Function.update reg (pair color) (recolour color red green blue current)) c =
      ⟨low red, low green, low blue⟩ := by
  have hword : c.extractLsb' 1 3 = pair color := by
    apply BitVec.eq_of_toNat_eq
    rw [toNat_half, toNat_pair hcolor, hc]
  have hr' := toNat_low hr
  have hg' := toNat_low hg
  have hb' := toNat_low hb
  rw [entry]
  rw [hword, Function.update_self]
  by_cases hodd : c.toNat % 2 = 1
  · have hcodd : color.toNat % 2 ≠ 0 := by omega
    have hval := toNat_recolour_odd current hr hg hb hcodd
    rw [if_pos ((odd_iff c).mpr hodd), Rgb.mk.injEq]
    refine ⟨?_, ?_, ?_⟩
    all_goals
      apply BitVec.eq_of_toNat_eq
      rw [toNat_field, hval]
      omega
  · have hceven : color.toNat % 2 = 0 := by omega
    have hval := toNat_recolour_even current hr hg hb hceven
    rw [if_neg (mt (odd_iff c).mp hodd), Rgb.mk.injEq]
    refine ⟨?_, ?_, ?_⟩
    all_goals
      apply BitVec.eq_of_toNat_eq
      rw [toNat_field, hval]
      omega

theorem entry_recolour_other {c : BitVec 4} (hc : color.toNat ≠ c.toNat) :
    entry (Function.update reg (pair color) (recolour color red green blue (reg (pair color)))) c =
      entry reg c := by
  by_cases hword : c.extractLsb' 1 3 = pair color
  · have hhalf : c.toNat / 2 = color.toNat / 2 := by rw [← toNat_half, hword, toNat_pair hcolor]
    unfold entry
    rw [hword, Function.update_self]
    by_cases hodd : c.toNat % 2 = 1
    · have hceven : color.toNat % 2 = 0 := by omega
      have hval := toNat_recolour_even (reg (pair color)) hr hg hb hceven
      rw [if_pos ((odd_iff c).mpr hodd), if_pos ((odd_iff c).mpr hodd), Rgb.mk.injEq]
      refine ⟨?_, ?_, ?_⟩
      all_goals
        apply BitVec.eq_of_toNat_eq
        rw [toNat_field, toNat_field, hval]
        omega
    · have hcodd : color.toNat % 2 ≠ 0 := by omega
      have hval := toNat_recolour_odd (reg (pair color)) hr hg hb hcodd
      rw [if_neg (mt (odd_iff c).mp hodd), if_neg (mt (odd_iff c).mp hodd), Rgb.mk.injEq]
      refine ⟨?_, ?_, ?_⟩
      all_goals
        apply BitVec.eq_of_toNat_eq
        rw [toNat_field, toNat_field, hval]
        omega
  · unfold entry
    rw [Function.update_of_ne hword]

end Entry

section Execution

variable {fontRom : BitVec 11 → BitVec 8} {s t u : State} {ops : List Op}

theorem carries_vram {b : Bus} {st : Store} (h : Carries b.data st) (hst : st.offset < 4800) :
    b.addr.getLsbD 11 = false := by
  have haddr : b.addr = BitVec.ofNat 12 (st.offset / 4) := h.addr
  have hsmall : st.offset / 4 / 2 ^ 11 = 0 := by omega
  rw [haddr, BitVec.getLsbD_ofNat, Nat.testBit_eq_decide_div_mod_eq, hsmall]
  rfl

def palette (s : State) (i : BitVec 3) : BitVec 32 := s.mem (paletteWord i)

theorem palette_away {b : Bus} (h : b.wren = true → b.addr.getLsbD 11 = false) :
    palette (s.edge fontRom b) = palette s := by
  funext i
  refine edge_mem_of_ne fontRom fun hw heq => ?_
  have h11 := ((paletteWord_eq_iff i b.addr).mp heq).1
  exact Bool.noConfusion ((h hw).symm.trans h11)

theorem Executes.wait_palette (h : Executes fontRom s [] t) : t.localReg = s.localReg ∧ palette t = palette s := by
  generalize hops : ([] : List Op) = ops at h
  induction h with
  | done s => exact ⟨rfl, rfl⟩
  | wait b hb _ ih =>
      have hquiet : b.wren = true → b.addr.getLsbD 11 = false := fun hw => Bool.noConfusion (hb.symm.trans hw)
      obtain ⟨hreg, hmem⟩ := ih hops
      exact ⟨hreg.trans (edge_localReg_keep fontRom hquiet), hmem.trans (palette_away hquiet)⟩
  | store => cases hops
  | setColorPalette => cases hops

theorem lastCall_getD (c : BitVec 4) (color red green blue : BitVec 8) (ops : List Op) (d : Rgb) :
    (lastCall c (.setColorPalette color red green blue :: ops)).getD d =
      (lastCall c ops).getD (if color.toNat = c.toNat then ⟨low red, low green, low blue⟩ else d) := by
  refine (lastOf_cons_getD (Op.colour c) (.setColorPalette color red green blue) ops d).trans ?_
  show (lastCall c ops).getD ((if _ then _ else _ : Option Rgb).getD d) = _
  split <;> rfl

theorem lastCall_store (c : BitVec 4) (st : Store) (ops : List Op) (d : Rgb) :
    (lastCall c (.store st :: ops)).getD d = (lastCall c ops).getD d :=
  lastOf_cons_getD (Op.colour c) (.store st) ops d

/-- A call puts what it makes of the word in the memory into both copies. -/
theorem call_palette {color red green blue : BitVec 8} {r b : Bus}
    (hcolor : color.toNat < 16) (hr : r.rden = true) (hquiet : r.wren = false)
    (hraddr : r.addr = paletteAddr color) (hwait : Executes fontRom (s.edge fontRom r) [] u)
    (hb : b.wren = true) (haddr : b.addr = paletteAddr color) (hbyteEn : b.byteEn = 0b1111#4)
    (hdata : b.writedata = recolour color red green blue (s.edge fontRom r).readdata) :
    palette (u.edge fontRom b) = Function.update (palette s) (pair color)
        (recolour color red green blue (palette s (pair color))) ∧
      (u.edge fontRom b).localReg = Function.update s.localReg (pair color)
        (recolour color red green blue (palette s (pair color))) := by
  have hidle : r.wren = true → r.addr.getLsbD 11 = false := fun hw => Bool.noConfusion (hquiet.symm.trans hw)
  obtain ⟨hreg, hmem⟩ := hwait.wait_palette
  rw [edge_localReg_keep fontRom hidle] at hreg
  rw [palette_away hidle] at hmem
  have hread : (s.edge fontRom r).readdata = palette s (pair color) := by
    have hreaddata : (s.edge fontRom r).readdata = s.mem r.addr := by
      show (if r.rden then if r.wren then _ else s.mem r.addr else _) = _
      rw [hr, hquiet]
      rfl
    rw [hreaddata, hraddr, paletteAddr_eq hcolor]
    rfl
  have hword : paletteWord (pair color) = b.addr := (paletteAddr_eq hcolor).symm.trans haddr.symm
  obtain ⟨h11, -, hpair⟩ := (paletteWord_eq_iff (pair color) b.addr).mp hword
  constructor
  · funext i
    by_cases hi : i = pair color
    · have hmerge : (u.edge fontRom b).mem b.addr = merge b.byteEn (u.mem b.addr) b.writedata := by
        rw [edge_mem fontRom hb]
        exact b.data.apply_same u.mem
      rw [hi, Function.update_self, palette, hword, hmerge, hbyteEn, merge_all, hdata, hread]
    · have hne : paletteWord i ≠ b.addr := fun heq =>
        hi (((paletteWord_eq_iff i b.addr).mp heq).2.2.trans hpair.symm)
      rw [Function.update_of_ne hi, palette, edge_mem_of_ne fontRom fun _ => hne, ← hmem]
      rfl
  · rw [edge_localReg fontRom hb h11, ← hpair, hdata, hread, hreg]

/-- The memory follows the calls, whatever it held. -/
theorem executes_palette (h : Executes fontRom s ops t) (hops : ∀ op, op ∈ ops → op.Valid) (c : BitVec 4) :
    entry (palette t) c = (lastCall c ops).getD (entry (palette s) c) := by
  induction h with
  | done s => rfl
  | wait b hb _ ih =>
      have hidle : b.wren = true → b.addr.getLsbD 11 = false := fun hw => Bool.noConfusion (hb.symm.trans hw)
      rw [ih hops, palette_away hidle]
  | store st b hb hcarries _ ih =>
      have hst : st.offset < 4800 := hops (.store st) List.mem_cons_self
      rw [ih fun op hop => hops op (List.mem_cons_of_mem _ hop), palette_away fun _ => carries_vram hcarries hst,
        lastCall_store]
  | setColorPalette color red green blue r b hr hquiet hraddr hwait hb haddr hbyteEn hdata _ _ ih =>
      obtain ⟨hcolor, hred, hgreen, hblue⟩ := hops (.setColorPalette color red green blue) List.mem_cons_self
      obtain ⟨hmem, -⟩ := call_palette hcolor hr hquiet hraddr hwait hb haddr hbyteEn hdata
      rw [ih fun op hop => hops op (List.mem_cons_of_mem _ hop), hmem, lastCall_getD]
      by_cases hc : color.toNat = c.toNat
      · rw [if_pos hc, entry_recolour_self _ _ hcolor hred hgreen hblue hc]
      · rw [if_neg hc, entry_recolour_other _ hcolor hred hgreen hblue hc]

/-- A register whose copies agree keeps agreeing, and a call makes them agree. -/
theorem executes_agrees (h : Executes fontRom s ops t) (hops : ∀ op, op ∈ ops → op.Valid) {i : BitVec 3}
    (hi : palette s i = s.localReg i ∨
      ∃ color red green blue, Op.setColorPalette color red green blue ∈ ops ∧ pair color = i) :
    palette t i = t.localReg i := by
  induction h with
  | done s =>
      rcases hi with hi | ⟨_, _, _, _, hop, -⟩
      · exact hi
      · cases hop
  | wait b hb _ ih =>
      have hidle : b.wren = true → b.addr.getLsbD 11 = false := fun hw => Bool.noConfusion (hb.symm.trans hw)
      refine ih hops ?_
      rwa [palette_away hidle, edge_localReg_keep fontRom hidle]
  | store st b hb hcarries _ ih =>
      have hst : st.offset < 4800 := hops (.store st) List.mem_cons_self
      have haway : b.wren = true → b.addr.getLsbD 11 = false := fun _ => carries_vram hcarries hst
      refine ih (fun op hop => hops op (List.mem_cons_of_mem _ hop)) ?_
      rw [palette_away haway, edge_localReg_keep fontRom haway]
      refine hi.imp_right fun ⟨color, red, green, blue, hop, hpair⟩ => ⟨color, red, green, blue, ?_, hpair⟩
      exact (List.mem_cons.mp hop).resolve_left Op.noConfusion
  | setColorPalette color red green blue r b hr hquiet hraddr hwait hb haddr hbyteEn hdata _ _ ih =>
      have hcolor := (hops (.setColorPalette color red green blue) List.mem_cons_self).1
      obtain ⟨hmem, hreg⟩ := call_palette hcolor hr hquiet hraddr hwait hb haddr hbyteEn hdata
      refine ih (fun op hop => hops op (List.mem_cons_of_mem _ hop)) ?_
      rw [hmem, hreg]
      by_cases hpair : i = pair color
      · left
        rw [hpair, Function.update_self, Function.update_self]
      · rw [Function.update_of_ne hpair, Function.update_of_ne hpair]
        refine hi.imp_right fun ⟨color', red', green', blue', hop, hpair'⟩ => ⟨color', red', green', blue', ?_, hpair'⟩
        refine (List.mem_cons.mp hop).resolve_left fun heq => hpair ?_
        rw [← hpair', (Op.setColorPalette.inj heq).1]

theorem executes_entry (h : Executes fontRom s ops t) (hs : Coherent fontRom s) (hops : ∀ op, op ∈ ops → op.Valid) :
    Coherent fontRom t ∧ ∀ c, entry t.localReg c = (lastCall c ops).getD (entry s.localReg c) := by
  have hbefore : palette s = s.localReg := funext hs
  have hafter : palette t = t.localReg := funext fun i => executes_agrees h hops (.inl (hs i))
  refine ⟨congrFun hafter, fun c => ?_⟩
  rw [← hafter, ← hbefore]
  exact executes_palette h hops c

/-- A colour once set shows, whatever the palette held before. -/
theorem executes_shows (h : Executes fontRom s ops t) (hops : ∀ op, op ∈ ops → op.Valid) {c : BitVec 4} {v : Rgb}
    (hc : lastCall c ops = some v) : entry t.localReg c = v := by
  obtain ⟨op, hop, hcolour⟩ := exists_of_lastOf hc
  have hagrees : palette t (c.extractLsb' 1 3) = t.localReg (c.extractLsb' 1 3) := by
    refine executes_agrees h hops (.inr ?_)
    cases op with
    | store st => cases hcolour
    | setColorPalette color red green blue =>
        refine ⟨color, red, green, blue, hop, BitVec.eq_of_toNat_eq ?_⟩
        have heq : color.toNat = c.toNat := (Option.ite_none_right_eq_some.mp hcolour).1
        rw [toNat_pair (hops _ hop).1, toNat_half, heq]
  have hentry := executes_palette h hops c
  rw [hc, Option.getD_some] at hentry
  rw [← hentry, entry, entry, hagrees]

/-- Every index shows the colour of its last call, what a call reads is what the
display uses, and a call changes no other index. -/
theorem palette_shows_last_call (hs : Zeroed s) (hops : ∀ op, op ∈ ops → op.Valid) (h : Executes fontRom s ops t) :
    (∀ c, fgd t.localReg c = (lastCall c ops).getD ⟨0, 0, 0⟩ ∧ bkd t.localReg c = (lastCall c ops).getD ⟨0, 0, 0⟩) ∧
    (∀ color : BitVec 8, color.toNat < 16 → avalonRead fontRom t (paletteAddr color) = t.localReg (pair color)) ∧
    (∀ color red green blue v, (Op.setColorPalette color red green blue).Valid →
      Executes fontRom t [.setColorPalette color red green blue] v → ∀ c : BitVec 4, color.toNat ≠ c.toNat →
        entry v.localReg c = entry t.localReg c) := by
  obtain ⟨hcoh, hlast⟩ := executes_entry h (coherent_zeroed fontRom hs) hops
  have hblack (c : BitVec 4) : entry s.localReg c = ⟨0, 0, 0⟩ := by
    rw [entry]
    rw [hs.localReg]
    split <;> rfl
  refine ⟨fun c => ?_, fun color hcolor => ?_, fun color red green blue v hvalid hcall c hc => ?_⟩
  · have hc := hlast c
    rw [hblack c] at hc
    exact ⟨hc, hc⟩
  · rw [paletteAddr_eq hcolor]
    exact hcoh (pair color)
  · obtain ⟨-, hcolour⟩ := executes_entry hcall hcoh fun op hop => by
      rw [List.mem_singleton.mp hop]
      exact hvalid
    rw [hcolour c, lastCall_getD, if_neg hc]
    rfl

end Execution

section Example

theorem exists_executes (fontRom : BitVec 11 → BitVec 8) (ops : List Op) (s : State) :
    ∃ t, Executes fontRom s ops t := by
  induction ops generalizing s with
  | nil => exact ⟨s, .done s⟩
  | cons op ops ih =>
      cases op with
      | store st =>
          obtain ⟨t, ht⟩ := ih (s.edge fontRom (carrying st))
          exact ⟨t, .store st (carrying st) rfl (carries_carrying st) ht⟩
      | setColorPalette color red green blue =>
          let r := loading (paletteAddr color)
          let b := storing (paletteAddr color) 0b1111 (recolour color red green blue (s.edge fontRom r).readdata)
          obtain ⟨t, ht⟩ := ih ((s.edge fontRom r).edge fontRom b)
          exact ⟨t, .setColorPalette color red green blue r b rfl rfl rfl (.done _) rfl rfl rfl rfl ht⟩

def recolouring : List Op :=
  [.setColorPalette 2 1 2 3, .setColorPalette 3 4 5 6, .store ⟨4799, 0x41⟩, .setColorPalette 3 7 8 9]

theorem palette_shows_last_call_recolouring : ∃ t, Executes (fun _ => 0) powerUp recolouring t ∧
    fgd t.localReg 2 = ⟨1, 2, 3⟩ ∧ bkd t.localReg 3 = ⟨7, 8, 9⟩ ∧ fgd t.localReg 4 = ⟨0, 0, 0⟩ := by
  have hops : ∀ op, op ∈ recolouring → op.Valid := by
    simp [recolouring, Op.Valid]
  obtain ⟨t, ht⟩ := exists_executes (fun _ => 0) recolouring powerUp
  have hshown := (palette_shows_last_call ⟨fun _ => rfl, fun _ => rfl⟩ hops ht).1
  exact ⟨t, ht, (hshown 2).1, (hshown 3).2, (hshown 4).1⟩

end Example

end ECE385.Display.Palette
