import ECE385.SLC3.Launch

namespace ECE385.SLC3.Boot

open Clocked.Machine (run_zero run_add run_succ FirstReturn)
open Execution
open Isa (Instr Reg Word)
open Launch (Launched PressedForever exists_launched exists_stretch switches)
open Loading (written)
open Refinement (arch)
open Stepping
open SramTop (State Inputs run AtS18)

def code : List Instr := [ .and 0 0 (.imm 0), .ldr 1 0 (-1), .jmp 1 ]

theorem decode_bootstrap : Instantiateram.bootstrap.map Isa.decode = code := by decide

/-- The bootstrap jumps to the line that the switches name. -/
structure Booted (y : Nat → Switches) (a b : Isa.State) : Prop where
  pc : b.pc = (y 1).2.setWidth 16
  zero : b.reg 0 = 0
  mem : b.mem = a.mem
  hex : b.hex = a.hex

theorem bootstrap_run {a : Isa.State} (y : Nat → Switches) (hpc : a.pc = 0)
    (h : Image Instantiateram.bootstrap 0 a.mem) :
    (∀ k, k < 3 → ∀ sw, Isa.decode ((Clocked.Machine.run next y a k).fetch sw) ≠ .pse) ∧
      Booted y a (Clocked.Machine.run next y a 3) := by
  obtain ⟨reg, pc, nzp, mem, hex⟩ := a
  obtain rfl : pc = line 0 0 := hpc
  have hlength : 0 + code.length ≤ 1024 := by decide
  have hcode : Code code 0 mem := decode_bootstrap ▸ h.code
  have hclear : reg 0 &&& 0 = 0 := BitVec.and_zero
  have h1 := run_next (run_zero next y ⟨reg, line 0 0, nzp, mem, hex⟩) (next_compute hcode hlength (y 0) rfl rfl hclear)
  have h2 := run_next h1 (next_switches hcode hlength (y 1) rfl rfl)
  have h3 := run_next h2 (next_jump hcode hlength (y 2) rfl rfl)
  refine ⟨fun k hk sw => ?_, ?_⟩
  · match k, hk with
    | 0, _ => exact fetch_line hcode hlength (k := 0) rfl sw ▸ Instr.noConfusion
    | 1, _ => exact h1 ▸ fetch_line hcode hlength (k := 1) rfl sw ▸ Instr.noConfusion
    | 2, _ => exact h2 ▸ fetch_line hcode hlength (k := 2) rfl sw ▸ Instr.noConfusion
  · rw [h3]
    exact ⟨rfl, rfl, rfl, rfl⟩

theorem image_written (mem : BitVec 10 → Word) : Image Instantiateram.program 0 (written 256 mem) := by
  intro k v hv
  obtain ⟨hk, _⟩ := List.getElem?_eq_some_iff.mp hv
  have hlength : Instantiateram.program.length = 156 := rfl
  have hvalue : (BitVec.ofNat 10 (0 + k)).toNat = k := by
    rw [Nat.zero_add]
    exact Nat.mod_eq_of_lt (by omega)
  rw [written, hvalue, if_pos (by omega), Instantiateram.data, BitVec.toNat_setWidth, hvalue,
    Nat.mod_eq_of_lt (by omega), List.getD_eq_getElem?_getD, hv]
  rfl

theorem image_prefix {vs ws : List Word} {base : Nat} {mem : BitVec 10 → Word} (h : Image vs base mem)
    (hws : ws <+: vs) : Image ws base mem := by
  obtain ⟨us, rfl⟩ := hws
  intro k v hv
  exact h k v ((List.getElem?_append_left (List.getElem?_eq_some_iff.mp hv).1).trans hv)

/-- The processor fetches from the line that the switches named, with the image
in memory and nothing shown yet. -/
structure Reached (sw : BitVec 10) (c : State) : Prop where
  fetch : AtS18 c
  pc : (arch c).pc = sw.setWidth 16
  zero : (arch c).reg 0 = 0
  image : Image Instantiateram.program 0 (arch c).mem
  hex : c.slc.hexData = 0

/-- After a reset, with Run let go until the initialiser is done and the switches
at rest, the processor gets to the line that the switches name, in time and with
the whole image in memory, whatever is done with Continue. With Continue pressed
and let go again and again it never stops. -/
theorem boot_reaches_program (x : Nat → Inputs) (s : State) (k : Nat) (sw : BitVec 10) (hreset : s.resetAh = true)
    (hlow : ∀ m, 0 < m → (run x s m).resetAh = false) (hk : 255 ≤ k)
    (hwait : ∀ m, 0 < m → m ≤ k → (run x s m).runAh = false) (hrun : (run x s (k + 1)).runAh = true)
    (hsw : ∀ m, k + 2 ≤ m → m < k + 35 → (x m).sw = sw) :
    ∃ t, t ≤ k + 35 ∧ Reached sw (run x s t) ∧
      (PressedForever x s → ∃ T, T 0 = t ∧ ∀ count, Launched x s T count) := by
  obtain ⟨hfirst, hidle⟩ := Loading.start_of_run hreset (fun m hm _ => hlow m hm) rfl hwait hrun hk
  have hstart := Loading.arch_at_start hreset (fun m hm _ => hlow m hm) hfirst hidle
  have himage := image_written (run x s 1).ram.mem
  have hws : Instantiateram.bootstrap <+: Instantiateram.program := ⟨_, by
    simp only [Instantiateram.program, List.append_assoc]
    rfl⟩
  have hlow' (n : Nat) (hn : k + 2 ≤ n) : (run x s n).resetAh = false := hlow n (by omega)
  have hbootstrap (y : Nat → Switches) := bootstrap_run (a := arch (run x s (k + 2))) y (by rw [hstart])
    (by rw [hstart]; exact image_prefix himage hws)
  obtain ⟨T, hT, hbound, hlaunched⟩ := exists_stretch hfirst.arrived hidle hlow' fun y => (hbootstrap y).1
  obtain ⟨-, hbooted⟩ := hbootstrap (switches x T)
  have harch := hlaunched.arch_at le_rfl
  rw [hT] at harch
  rw [← harch] at hbooted
  have hlater (j : Nat) (hj : j ≤ 3) : T 0 ≤ T j := hlaunched.toArrivals.le (Nat.zero_le j) hj
  have hfirst1 := hlater 1 (by decide)
  have hbound1 := hbound 1 (by decide)
  have hbound3 := hbound 3 le_rfl
  have hline : (switches x T 1).2 = sw := hsw _ (by omega) (by omega)
  have hhex : (run x s (T 3)).slc.hexData = _ := hbooted.hex
  rw [hstart] at hhex
  refine ⟨T 3, by omega, ⟨hlaunched.toArrivals.atS18 le_rfl, ?_, hbooted.zero, ?_, hhex⟩, fun hpressed => ?_⟩
  · rw [hbooted.pc, hline]
  · rw [hbooted.mem, hstart]
    exact himage
  · have hfirst3 := hlater 3 le_rfl
    exact exists_launched (hlaunched.toArrivals.atS18 le_rfl) (hlaunched.idle_at le_rfl)
      (fun n hn => hlow' n (by omega)) hpressed

/-- Both buttons are let go, Run is pressed in cycle 300, and Continue in every other cycle from then on. -/
def buttons (sw : BitVec 10) (n : Nat) : Inputs :=
  { SramTop.handsOff sw with run := decide (n ≠ 300), cont := decide (n ≤ 300 ∨ n % 2 = 1) }

theorem boot_reaches_program_sort :
    ∃ T, T 0 ≤ 335 ∧ (arch (run (buttons 90) (Loading.held fun _ => 0) (T 0))).pc = 90 ∧
      ∀ count, Launched (buttons 90) (Loading.held fun _ => 0) T count := by
  have hrun (n : Nat) : (run (buttons 90) (Loading.held fun _ => 0) (n + 1)).runAh = !decide (n ≠ 300) := rfl
  have hcont (n : Nat) : (run (buttons 90) (Loading.held fun _ => 0) (n + 1)).contAh =
      !decide (n ≤ 300 ∨ n % 2 = 1) := rfl
  have hreset (m : Nat) (hm : 0 < m) : (run (buttons 90) (Loading.held fun _ => 0) m).resetAh = false := by
    obtain ⟨n, rfl⟩ := Nat.exists_eq_succ_of_ne_zero (Nat.pos_iff_ne_zero.mp hm)
    have hlevel : (run (buttons 90) (Loading.held fun _ => 0) (n + 1)).resetAh =
        (!decide (n ≠ 300) && !decide (n ≤ 300 ∨ n % 2 = 1)) := rfl
    rw [hlevel]
    rcases Nat.lt_or_ge 300 n with hlt | hle
    · rw [decide_eq_true hlt.ne']
      rfl
    · rw [decide_eq_true (Or.inl hle), Bool.not_true, Bool.and_false]
  have hwait (m : Nat) (hm : 0 < m) (hle : m ≤ 300) : (run (buttons 90) (Loading.held fun _ => 0) m).runAh = false := by
    obtain ⟨n, rfl⟩ := Nat.exists_eq_succ_of_ne_zero (Nat.pos_iff_ne_zero.mp hm)
    rw [hrun, decide_eq_true (by omega)]
    rfl
  have hpressed : PressedForever (buttons 90) (Loading.held fun _ => 0) := by
    intro n
    refine ⟨2 * (n + 151) + 1, 2 * (n + 151) + 1 + 1, by omega, Nat.lt_succ_self _, ?_, ?_⟩
    · rw [hcont, decide_eq_false (by omega)]
      rfl
    · rw [hcont, decide_eq_true (by omega)]
      rfl
  obtain ⟨t, ht, hreached, hforever⟩ := boot_reaches_program (buttons 90) (Loading.held fun _ => 0) 300 90 rfl hreset
    (by decide) hwait ((hrun 300).trans rfl) (fun m _ _ => rfl)
  obtain ⟨T, rfl, hlaunched⟩ := hforever hpressed
  exact ⟨T, ht, hreached.pc, hlaunched⟩

end ECE385.SLC3.Boot
