import ECE385.SLC3.MultiplierPasses

namespace ECE385.SLC3.Multiplication

open Clocked.Machine (run_add FirstReturn)
open Execution
open MultiplierPasses
open Program (Arrivals)
open Refinement (arch)
open SramTop (State Inputs run AtS18)

/-- At time `t` the processor begins to fetch from `address`. -/
structure Fetches (x : Nat → Inputs) (s : State) (t : Nat) (address : Isa.Word) : Prop where
  arrived : AtS18 (run x s t)
  pc : (arch (run x s t)).pc = address

def Reaches (x : Nat → Inputs) (s : State) (t n : Nat) (address : Isa.Word) : Prop :=
  ∃ d, d ≤ n ∧ Fetches x s (t + d) address

/-- The multiplier from time `t` on: every pass shows the product of its two
operands, gets from pause to pause in bounded time and leaves the mask alone. -/
structure Multiplies (x : Nat → Inputs) (s : State) (t : Nat) : Prop where
  shows : ∀ i j k, t ≤ i → i < j → j < k → Fetches x s i 55 → Fetches x s j 57 → Fetches x s k 71 →
    (∀ m, i < m → m < j → ¬Fetches x s m 57) → (∀ m, j < m → m < k → ¬Fetches x s m 71) →
    ∀ n, k ≤ n → (∀ m, k < m → m < n → ¬AtS18 (run x s m)) →
      (run x s n).slc.hexData = product (x (i + 9)).sw (x (j + 9)).sw
  enters : Reaches x s t 33 52
  prepares : ∀ k, t ≤ k → Fetches x s k 52 → Reaches x s k 22 54
  proceeds : ∀ k, t ≤ k → Fetches x s k 55 → Reaches x s k 11 56
  finishes : ∀ k, t ≤ k → Fetches x s k 57 → Reaches x s k 1078 71
  restarts : ∀ k, t ≤ k → Fetches x s k 72 → Reaches x s k 11 52
  resumes : ∀ k address, t ≤ k → address = 54 ∨ address = 56 ∨ address = 71 → Fetches x s k address →
    ∀ p q, 6 ≤ p → p < q → (run x s (k + p)).contAh = true → (run x s (k + q)).contAh = false →
      Reaches x s k (max 11 (q + 1)) (address + 1)
  mask : ∀ k, t ≤ k → Fetches x s k 52 → (arch (run x s k)).reg 3 = 0x80#16

def switches (x : Nat → Inputs) (T : Nat → Nat) (k : Nat) : Switches := ((x (T k + 3)).sw, (x (T k + 9)).sw)

/-- At time `t` the program is started at address 49, and Reset stays low from then on. -/
structure Started (x : Nat → Inputs) (s : State) (t : Nat) : Prop where
  arrived : AtS18 (run x s t)
  idle : (run x s t).weSelect = false
  low : ∀ n, t ≤ n → (run x s n).resetAh = false
  start : At 0 (arch (run x s t))

theorem Reaches.trans {x : Nat → Inputs} {s : State} {t m n : Nat} {address address' : Isa.Word}
    (h : Reaches x s t m address) (h' : ∀ k, t ≤ k → Fetches x s k address → Reaches x s k n address') :
    Reaches x s t (m + n) address' := by
  obtain ⟨d, hd, hf⟩ := h
  obtain ⟨e, he, hf'⟩ := h' _ (Nat.le_add_right t d) hf
  rw [Nat.add_assoc] at hf'
  exact ⟨d + e, Nat.add_le_add hd he, hf'⟩

/-- The first time after `t` at which the processor gets to `address'`. -/
theorem Reaches.first {x : Nat → Inputs} {s : State} {t n : Nat} {address address' : Isa.Word}
    (h : Reaches x s t n address') (hf : Fetches x s t address) (hne : address ≠ address') :
    ∃ k, t < k ∧ Fetches x s k address' ∧ ∀ m, t < m → m < k → ¬Fetches x s m address' := by
  classical
  obtain ⟨d, _, hd⟩ := h
  have hpos : t < t + d := by
    refine Nat.lt_add_of_pos_right (Nat.pos_of_ne_zero ?_)
    rintro rfl
    exact hne (hf.pc.symm.trans hd.pc)
  have hexists : ∃ k, t < k ∧ Fetches x s k address' := ⟨t + d, hpos, hd⟩
  refine ⟨Nat.find hexists, (Nat.find_spec hexists).1, (Nat.find_spec hexists).2, fun m hm hlt hf' => ?_⟩
  exact Nat.find_min hexists hlt ⟨hm, hf'⟩

section Run

variable {x : Nat → Inputs} {s : State} {t : Nat} (h : Started x s t)

include h

theorem Started.arch_arrival {T : Nat → Nat} {count : Nat} (hT : Arrivals x s T count) (hT0 : T 0 = t) {k : Nat}
    (hk : k ≤ count) :
    arch (run x s (T k)) = Clocked.Machine.run next (switches x T) (arch (run x s t)) k := by
  induction k with
  | zero => rw [hT0]; rfl
  | succ k ih =>
      subst hT0
      rw [hT.arch_next h.idle (fun n hn _ => h.low n hn) hk, Clocked.Machine.run_succ, ← ih (Nat.le_of_succ_le hk)]
      rfl

theorem Started.arch_at {k : Nat} (hk : t ≤ k) (hat : AtS18 (run x s k)) :
    ∃ y n, arch (run x s k) = Clocked.Machine.run next y (arch (run x s t)) n := by
  obtain ⟨d, rfl⟩ := Nat.exists_eq_add_of_le hk
  obtain ⟨T, count, hT0, hT, _, hall⟩ := Program.exists_arrivals_through h.arrived d
  obtain ⟨n, hn, hTn⟩ := hall d le_rfl hat
  exact ⟨switches x T, n, hTn ▸ h.arch_arrival hT hT0 hn⟩

section Later

variable {k : Nat} (hk : t ≤ k)

include hk

theorem Started.idle_at : (run x s k).weSelect = false :=
  Program.idle_from h.idle (fun m hm _ => h.low m hm) hk (Nat.lt_succ_self k)

theorem Started.low_from (n : Nat) : (run (fun j => x (k + j)) (run x s k) n).resetAh = false := by
  rw [run, ← run_add]
  exact h.low _ (Nat.le_add_right_of_le hk)

theorem Started.reaches {n : Nat} {address : Isa.Word} (hat : AtS18 (run x s k))
    (hexec : Executes code 49 (fun b => b.pc = address) n (arch (run x s k))) :
    Reaches x s k (11 * n) address := by
  obtain ⟨d, hd, harrived, _, hpc⟩ := hexec.on_machine hat (h.low_from hk) (h.idle_at hk)
  rw [run, ← run_add] at harrived hpc
  exact ⟨d, hd, harrived, hpc⟩

theorem Started.at_line {i : Nat} (hf : Fetches x s k (line 49 i)) (hout : i < 9 ∨ 22 ≤ i) (hi : i < 24) :
    At i (arch (run x s k)) := by
  obtain ⟨y, n, harch⟩ := h.arch_at hk hf.arrived
  rw [harch]
  exact at_of_pc h.start hout hi (harch ▸ hf.pc)

theorem Started.line_reaches {i : Nat} {instr : Isa.Instr} (hf : Fetches x s k (line 49 i)) (hi : i < 9)
    (hinstr : code[i]? = some instr) (hpse : instr ≠ .pse)
    (hpc : ∀ sw b, b.pc = line 49 (i + 1) → (instr.exec sw b).pc = line 49 (i + 1)) :
    Reaches x s k 11 (line 49 (i + 1)) :=
  have hat := h.at_line hk hf (.inl hi) (by omega)
  h.reaches (n := 1) hk hf.arrived (hat.executes hinstr hpse fun sw => hpc sw _ rfl)

theorem Started.pause_reaches {i : Nat} (hf : Fetches x s k (line 49 i)) (hout : i < 9 ∨ 22 ≤ i) (hi : i < 24)
    (hinstr : code[i]? = some .pse) {p q : Nat} (hp : 6 ≤ p) (hpq : p < q)
    (hpress : (run x s (k + p)).contAh = true) (hrelease : (run x s (k + q)).contAh = false) :
    Reaches x s k (max 11 (q + 1)) (line 49 (i + 1)) := by
  have hlow := h.low_from hk
  have hidle := h.idle_at hk
  rw [run, run_add] at hpress hrelease
  obtain ⟨d, hd, hfirst⟩ := Refinement.return_of_release hlow hidle hf.arrived hp hpq hpress hrelease
  have harch := Refinement.arch_at_return (fun m _ => hlow m) hidle hf.arrived hfirst
  refine ⟨d, hd, ?_, ?_⟩
  · rw [run, run_add]
    exact hfirst.arrived
  · rw [run, run_add]
    exact (congrArg Isa.State.pc harch).trans ((h.at_line hk hf hout hi).next_pause hinstr (_, _))

theorem Started.home (hf : Fetches x s k 52) : Home (arch (run x s k)) := by
  obtain ⟨y, n, harch⟩ := h.arch_at hk hf.arrived
  rw [harch]
  exact home_of_pc h.start (harch ▸ hf.pc)

theorem Started.finish_reaches (hf : Fetches x s k 57) : Reaches x s k 1078 71 := by
  obtain ⟨y, n, harch⟩ := h.arch_at hk hf.arrived
  refine h.reaches (n := 98) hk hf.arrived ?_
  rw [harch]
  exact finish_executes_of_pc h.start (harch ▸ hf.pc)

theorem Started.restart_reaches (hf : Fetches x s k 72) : Reaches x s k 11 52 := by
  obtain ⟨y, n, harch⟩ := h.arch_at hk hf.arrived
  refine h.reaches (n := 1) hk hf.arrived ?_
  rw [harch]
  exact restart_executes_of_pc h.start (harch ▸ hf.pc)

end Later

theorem Started.enters : Reaches x s t 33 52 := by
  have h50 : Reaches x s t 11 50 := by
    have h49 : Fetches x s t (line 49 0) := ⟨h.arrived, h.start.pc⟩
    exact h.line_reaches le_rfl h49 (by decide) rfl Isa.Instr.noConfusion fun sw b => id
  have h51 (k : Nat) (hk : t ≤ k) (hf : Fetches x s k (line 49 1)) : Reaches x s k 11 51 := by
    refine h.line_reaches hk hf (by decide) rfl Isa.Instr.noConfusion fun sw b hb => ?_
    exact (BitVec.add_zero _).trans hb
  have h52 (k : Nat) (hk : t ≤ k) (hf : Fetches x s k (line 49 2)) : Reaches x s k 11 52 :=
    h.line_reaches hk hf (by decide) rfl Isa.Instr.noConfusion fun sw b => id
  exact Reaches.trans (m := 22) (n := 11) (Reaches.trans (m := 11) (n := 11) h50 h51) h52

theorem Started.prepares {k : Nat} (hk : t ≤ k) (hf : Fetches x s k 52) : Reaches x s k 22 54 := by
  have h53 : Reaches x s k 11 53 :=
    h.line_reaches hk (i := 3) hf (by decide) rfl Isa.Instr.noConfusion fun sw b => id
  have h54 (n : Nat) (hn : k ≤ n) (hf : Fetches x s n (line 49 4)) : Reaches x s n 11 54 :=
    h.line_reaches (hk.trans hn) hf (by decide) rfl Isa.Instr.noConfusion fun sw b => id
  exact Reaches.trans (m := 11) (n := 11) h53 h54

theorem Started.hexData_at {i j k : Nat} (hi : t ≤ i) (hij : i < j) (hjk : j < k) (h55 : Fetches x s i 55)
    (h57 : Fetches x s j 57) (h71 : Fetches x s k 71) (hbetween : ∀ m, i < m → m < j → ¬Fetches x s m 57)
    (hbefore : ∀ m, j < m → m < k → ¬Fetches x s m 71) :
    (arch (run x s k)).hex = product (x (i + 9)).sw (x (j + 9)).sw := by
  obtain ⟨d, rfl⟩ := Nat.exists_eq_add_of_le (hi.trans (hij.trans hjk).le)
  obtain ⟨T, count, rfl, hT, _, hall⟩ := Program.exists_arrivals_through h.arrived d
  have hindex (n : Nat) (hn : T 0 ≤ n) (hle : n ≤ T 0 + d) (hat : AtS18 (run x s n)) : ∃ a, a ≤ count ∧ T a = n := by
    obtain ⟨e, rfl⟩ := Nat.exists_eq_add_of_le hn
    exact hall e (Nat.le_of_add_le_add_left hle) hat
  obtain ⟨a, ha, rfl⟩ := hindex i hi (by omega) h55.arrived
  obtain ⟨b, hb, rfl⟩ := hindex j (by omega) hjk.le h57.arrived
  obtain ⟨c, hc, hTc⟩ := hindex _ (by omega) le_rfl h71.arrived
  rw [← hTc] at hjk h71 hbefore ⊢
  have harch {l : Nat} (hl : l ≤ count) := h.arch_arrival hT rfl hl
  have hab := (hT.lt_iff ha hb).mp hij
  have hbc := (hT.lt_iff hb hc).mp hjk
  rw [harch hc]
  refine product_shown h.start hab hbc (harch ha ▸ h55.pc) (harch hb ▸ h57.pc) (harch hc ▸ h71.pc) ?_ ?_
  · intro l hal hlb hl
    have hle : l ≤ count := hlb.le.trans hb
    exact hbetween (T l) (hT.lt hal hle) (hT.lt hlb hb) ⟨hT.atS18 hle, harch hle ▸ hl⟩
  · intro l hbl hlc hl
    have hle : l ≤ count := hlc.le.trans hc
    exact hbefore (T l) (hT.lt hbl hle) (hT.lt hlc hc) ⟨hT.atS18 hle, harch hle ▸ hl⟩

theorem Started.hexData_during {i j k n : Nat} (hi : t ≤ i) (hij : i < j) (hjk : j < k)
    (h55 : Fetches x s i 55) (h57 : Fetches x s j 57) (h71 : Fetches x s k 71)
    (hbetween : ∀ m, i < m → m < j → ¬Fetches x s m 57) (hbefore : ∀ m, j < m → m < k → ¬Fetches x s m 71)
    (hn : k ≤ n) (hwait : ∀ m, k < m → m < n → ¬AtS18 (run x s m)) :
    (run x s n).slc.hexData = product (x (i + 9)).sw (x (j + 9)).sw := by
  obtain ⟨d, rfl⟩ := Nat.exists_eq_add_of_le hn
  have hk : t ≤ k := hi.trans (hij.trans hjk).le
  have hat := h.at_line hk (i := 22) h71 (.inr le_rfl) (by decide)
  have hwait' (m : Nat) (hm : 0 < m) (hlt : m < d) : ¬AtS18 (run (fun j => x (k + j)) (run x s k) m) := by
    rw [run, ← run_add]
    exact hwait (k + m) (Nat.lt_add_of_pos_right hm) (Nat.add_lt_add_left hlt k)
  rw [run, run_add, Refinement.hexData_pause (fun m _ => h.low_from hk m) (h.idle_at hk) h71.arrived
    (hat.fetch_pause rfl _) le_rfl hwait']
  exact h.hexData_at hi hij hjk h55 h57 h71 hbetween hbefore

end Run

theorem multiplier_multiplies (x : Nat → Inputs) (s : State) (t : Nat) (h : Started x s t) : Multiplies x s t := by
  refine ⟨?_, h.enters, ?_, ?_, ?_, ?_, ?_, ?_⟩
  · intro i j k hi hij hjk h55 h57 h71 hbetween hbefore n hn hwait
    exact h.hexData_during hi hij hjk h55 h57 h71 hbetween hbefore hn hwait
  · exact fun k hk hf => h.prepares hk hf
  · intro k hk hf
    exact h.line_reaches hk (i := 6) hf (by decide) rfl Isa.Instr.noConfusion fun sw b => id
  · exact fun k hk hf => h.finish_reaches hk hf
  · exact fun k hk hf => h.restart_reaches hk hf
  · rintro k _ hk (rfl | rfl | rfl) hf p q hp hpq hpress hrelease
    · exact h.pause_reaches (i := 5) hk hf (by decide) (by decide) rfl hp hpq hpress hrelease
    · exact h.pause_reaches (i := 7) hk hf (by decide) (by decide) rfl hp hpq hpress hrelease
    · exact h.pause_reaches (i := 22) hk hf (by decide) (by decide) rfl hp hpq hpress hrelease
  · exact fun k hk hf => (h.home hk hf).mask

/-- Continue is pressed in every other cycle. -/
def pressing (sw : BitVec 10) (n : Nat) : Inputs := { SramTop.handsOff sw with cont := decide (n % 2 = 1) }

def loaded : State :=
  { SramTop.settled fun a => Instantiateram.data (a.setWidth 16) with
    slc := ⟨.s18, ⟨fun _ => 0, 49, 0, 0, 0, 0, false, 0⟩, 0⟩ }

theorem started_loaded (sw : BitVec 10) : Started (pressing sw) loaded 0 := by
  have himage : Image Instantiateram.multiplier 49 loaded.ram.mem := .of_eq (by decide +kernel)
  refine ⟨rfl, rfl, fun n _ => ?_, rfl, himage⟩
  cases n <;> rfl

theorem contAh_pressing (sw : BitVec 10) (n : Nat) :
    (run (pressing sw) loaded (n + 1)).contAh = !decide (n % 2 = 1) := rfl

theorem pressing_releases (sw : BitVec 10) (k : Nat) :
    ∃ p, 6 ≤ p ∧ (run (pressing sw) loaded (k + p)).contAh = true ∧
      (run (pressing sw) loaded (k + (p + 1))).contAh = false := by
  rcases Nat.mod_two_eq_zero_or_one k with hk | hk
  · refine ⟨7, by decide, (contAh_pressing sw (k + 6)).trans ?_, (contAh_pressing sw (k + 7)).trans ?_⟩
    · simp [Nat.add_mod, hk]
    · simp [Nat.add_mod, hk]
  · refine ⟨6, le_rfl, (contAh_pressing sw (k + 5)).trans ?_, (contAh_pressing sw (k + 6)).trans ?_⟩
    · simp [Nat.add_mod, hk]
    · simp [Nat.add_mod, hk]

/-- The low byte of 253 is -3. -/
theorem multiplier_multiplies_253 : ∃ n, (run (pressing 253) loaded n).slc.hexData = BitVec.ofInt 16 (-3 * 253) := by
  have h := multiplier_multiplies (pressing 253) loaded 0 (started_loaded 253)
  have hresume (k : Nat) (address : Isa.Word) (haddress : address = 54 ∨ address = 56 ∨ address = 71)
      (hf : Fetches (pressing 253) loaded k address) : ∃ n, Reaches (pressing 253) loaded k n (address + 1) := by
    obtain ⟨p, hp, hpress, hrelease⟩ := pressing_releases 253 k
    exact ⟨_, h.resumes k address (Nat.zero_le k) haddress hf p (p + 1) hp (Nat.lt_succ_self p) hpress hrelease⟩
  obtain ⟨_, _, h52⟩ := h.enters
  obtain ⟨_, _, h54⟩ := h.prepares _ (Nat.zero_le _) h52
  obtain ⟨_, _, _, h55⟩ := hresume _ 54 (.inl rfl) h54
  obtain ⟨d, _, h56⟩ := h.proceeds _ (Nat.zero_le _) h55
  obtain ⟨_, e, _, h57⟩ := hresume _ 56 (.inr (.inl rfl)) h56
  rw [Nat.add_assoc] at h57
  obtain ⟨j, hij, h57, hbetween⟩ := Reaches.first (n := d + e) ⟨_, le_rfl, h57⟩ h55 (by decide)
  obtain ⟨k, hjk, h71, hbefore⟩ := (h.finishes j (Nat.zero_le _) h57).first h57 (by decide)
  have hvalue : product 253 253 = BitVec.ofInt 16 (-3 * 253) := by decide
  have hproduct := h.shows _ j k (Nat.zero_le _) hij hjk h55 h57 h71 hbetween hbefore k le_rfl
    fun m hkm hmk => absurd hkm (Nat.lt_asymm hmk)
  exact ⟨k, hproduct.trans hvalue⟩

end ECE385.SLC3.Multiplication
