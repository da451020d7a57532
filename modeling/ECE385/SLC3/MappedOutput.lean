import ECE385.SLC3.Program

namespace ECE385.SLC3.MappedOutput

open Clocked.Machine (run_add FirstReturn)
open Clocked.LastWrite (lastWrite lastWrite_congr write_some)
open Datapath (Word)
open Loading (held pressRun written)
open Program (Arrivals stores)
open Refinement (arch)
open SramTop (State Inputs run AtS18)

/-- A store to xFFFF reaches the display and also the last word of the memory,
and nothing else. -/
theorem mapped_store {x : Nat → Inputs} {s : State} {n : Nat} {v : Word} (hfetch : AtS18 s)
    (hidle : s.weSelect = false) (hlow : ∀ m, m < n → (run x s m).resetAh = false)
    (hn : FirstReturn SramTop.step x s AtS18 n) (hstore : (arch s).store (x 3).sw = some (0xffff#16, v)) :
    (arch (run x s n)).hex = v ∧ (arch (run x s n)).mem = Function.update (arch s).mem 1023 v := by
  rw [Refinement.arch_at_return hlow hidle hfetch hn]
  constructor
  · rw [Isa.next_hex, hstore]
    rfl
  · have hlast : (0xffff#16).setWidth 10 = 1023#10 := by decide
    rw [Isa.next_mem, hstore, Option.map_some, write_some, hlast]
    rfl

theorem load_eq_lastStore {x : Nat → Inputs} {s : State} {T : Nat → Nat} {k : Nat} {dr : Isa.Reg}
    {address : Word} (hreset : s.resetAh = true)
    (hlow : ∀ n, 0 < n → n < T (k + 1) → (run x s n).resetAh = false)
    (hstart : FirstReturn SramTop.step x s AtS18 (T 0)) (hidle : (run x s (T 0)).weSelect = false)
    (hT : Arrivals x s T (k + 1))
    (hload : (arch (run x s (T k))).load (x (T k + 3)).sw = some (dr, address))
    (haddress : address ≠ 0xffff#16) :
    (arch (run x s (T (k + 1)))).reg dr =
      (lastWrite (stores x s T) (address.setWidth 10) k).getD
        (written 256 (run x s 1).ram.mem (address.setWidth 10)) := by
  have hlow' (n : Nat) (hn : T 0 ≤ n) : n < T (k + 1) → (run x s n).resetAh = false :=
    hlow n (Nat.lt_of_lt_of_le hstart.pos hn)
  have hlast : T 0 < T (k + 1) := hT.lt (Nat.succ_pos k) le_rfl
  rw [hT.arch_next hidle hlow' (Nat.lt_succ_self k), Isa.next_load _ _ _ hload, Isa.State.read,
    if_neg haddress, Program.mem_eq_lastStore hT hidle hlow' _ (Nat.le_succ k),
    Loading.arch_at_start hreset (fun m hm hle => hlow m hm (by omega)) hstart hidle]

/-- A store to xFFFF sets the display and the last word of the memory. A load
from any other address finds the last word stored at that address modulo 1024,
stores to xFFFF included, or else what the initialiser left there. -/
theorem mapped_output :
    (∀ (x : Nat → Inputs) (s : State) (n : Nat) (v : Word), AtS18 s → s.weSelect = false →
      (∀ m, m < n → (run x s m).resetAh = false) → FirstReturn SramTop.step x s AtS18 n →
      (arch s).store (x 3).sw = some (0xffff#16, v) →
        (arch (run x s n)).hex = v ∧ (arch (run x s n)).mem = Function.update (arch s).mem 1023 v) ∧
    (∀ (x : Nat → Inputs) (s : State) (T : Nat → Nat) (k : Nat) (dr : Isa.Reg) (address : Word),
      s.resetAh = true → (∀ n, 0 < n → n < T (k + 1) → (run x s n).resetAh = false) →
      FirstReturn SramTop.step x s AtS18 (T 0) → (run x s (T 0)).weSelect = false →
      Arrivals x s T (k + 1) →
      (arch (run x s (T k))).load (x (T k + 3)).sw = some (dr, address) → address ≠ 0xffff#16 →
        (arch (run x s (T (k + 1)))).reg dr =
          (lastWrite (stores x s T) (address.setWidth 10) k).getD
            (written 256 (run x s 1).ram.mem (address.setWidth 10))) := by
  constructor
  · intro x s n v hfetch hidle hlow hn hstore
    exact mapped_store hfetch hidle hlow hn hstore
  · intro x s T k dr address hreset hlow hstart hidle hT hload haddress
    exact load_eq_lastStore hreset hlow hstart hidle hT hload haddress

section PressRun

variable (mem : BitVec 10 → Word) (sw : BitVec 10)

theorem pressRun_low (n : Nat) (hn : 0 < n) : (run (pressRun sw) (held mem) n).resetAh = false := by
  obtain ⟨n, rfl⟩ := Nat.exists_eq_succ_of_ne_zero (Nat.pos_iff_ne_zero.mp hn)
  exact Bool.and_false _

def atStart : Isa.State := ⟨fun _ => 0, 0, 0, written 256 mem, 0⟩

def steps (k : Nat) : Isa.State := (fun a => a.next sw sw)^[k] (atStart mem)

theorem start_pressRun :
    FirstReturn SramTop.step (pressRun sw) (held mem) AtS18 258 ∧
      (run (pressRun sw) (held mem) 258).weSelect = false ∧
      arch (run (pressRun sw) (held mem) 258) = atStart mem := by
  have hlow := pressRun_low mem sw
  have hwait (m : Nat) (hm : 0 < m) (hle : m ≤ 256) : (run (pressRun sw) (held mem) m).runAh = false := by
    obtain ⟨m, rfl⟩ := Nat.exists_eq_succ_of_ne_zero (Nat.pos_iff_ne_zero.mp hm)
    show (!decide (m ≠ 256)) = false
    simp
    omega
  obtain ⟨hstart, hidle⟩ := Loading.start_of_run rfl (fun m hm _ => hlow m hm) (k := 256) rfl hwait rfl
    (by decide)
  refine ⟨hstart, hidle, ?_⟩
  rw [Loading.arch_at_start rfl (fun m hm _ => hlow m hm) hstart hidle]
  rfl

theorem pressRun_arrivals (count : Nat) (hpse : ∀ k, k < count → Isa.decode ((steps mem sw k).fetch sw) ≠ .pse) :
    ∃ T : Nat → Nat, T 0 = 258 ∧ Arrivals (pressRun sw) (held mem) T count ∧
      ∀ k, k ≤ count → arch (run (pressRun sw) (held mem) (T k)) = steps mem sw k := by
  obtain ⟨hstart, hidle, harch⟩ := start_pressRun mem sw
  have hlow (n : Nat) (hn : 258 ≤ n) : (run (pressRun sw) (held mem) n).resetAh = false :=
    pressRun_low mem sw n (by omega)
  have hsw (n : Nat) : (pressRun sw n).sw = sw := rfl
  have hexists := Program.exists_arrivals hsw hstart.arrived hidle hlow count
  rw [harch] at hexists
  exact hexists hpse

/-- The instruction after `k` others, in the run of the machine. -/
theorem exists_instruction (k : Nat) (hpse : ∀ j, j < k + 1 → Isa.decode ((steps mem sw j).fetch sw) ≠ .pse) :
    ∃ t n, 256 < t ∧ AtS18 (run (pressRun sw) (held mem) t) ∧
      (run (pressRun sw) (held mem) t).weSelect = false ∧
      FirstReturn SramTop.step (fun j => pressRun sw (t + j)) (run (pressRun sw) (held mem) t) AtS18 n ∧
      arch (run (pressRun sw) (held mem) t) = steps mem sw k ∧
      arch (run (pressRun sw) (held mem) (t + n)) = steps mem sw (k + 1) := by
  obtain ⟨T, hT0, hT, harch⟩ := pressRun_arrivals mem sw (k + 1) hpse
  obtain ⟨hstart, hidle, _⟩ := start_pressRun mem sw
  rw [← hT0] at hstart hidle
  have hlater : T 0 ≤ T k := hT.le (Nat.zero_le k) (Nat.le_succ k)
  have hidle' := Program.idle_from hidle (fun m hm _ => pressRun_low mem sw m (by omega)) hlater (Nat.lt_succ_self _)
  obtain ⟨d, hd, hreturn⟩ := hT.next k (Nat.lt_succ_self k)
  refine ⟨T k, d, by omega, hT.atS18 (Nat.le_succ k), hidle', hreturn, harch k (Nat.le_succ k), ?_⟩
  rw [← hd]
  exact harch (k + 1) le_rfl

end PressRun

/-- Behind the words that the initialiser writes: the line is shown, and the last
word of the memory, whose address is made by doubling, is loaded. -/
def readback (a : BitVec 10) : Word :=
  if a = 256 then 0x723f else if a = 257 then 0x1641 else if a = 258 then 0x16c3 else if a = 259 then 0x64ff else 0

theorem mapped_output_readback :
    (∃ n, (arch (run (pressRun 256) (held readback) n)).hex = 256) ∧
    ∃ n, (arch (run (pressRun 256) (held readback) n)).reg 2 = 256 := by
  constructor
  · obtain ⟨t, n, hlate, hfetch, hidle, hreturn, harch, -⟩ := exists_instruction readback 256 3 (by decide +kernel)
    have hlow (m : Nat) (_ : m < n) :
        (run (fun j => pressRun 256 (t + j)) (run (pressRun 256) (held readback) t) m).resetAh = false := by
      rw [run, ← run_add]
      exact pressRun_low readback 256 (t + m) (by omega)
    have hstore : (steps readback 256 3).store 256 = some (0xffff#16, 256) := by decide +kernel
    have hshown := mapped_output.1 (fun j => pressRun 256 (t + j)) (run (pressRun 256) (held readback) t) n 256 hfetch
      hidle hlow hreturn (by rw [harch]; exact hstore)
    rw [run, ← run_add] at hshown
    exact ⟨t + n, hshown.1⟩
  · obtain ⟨T, hT0, hT, harch⟩ := pressRun_arrivals readback 256 7 (by decide +kernel)
    obtain ⟨hstart, hidle, _⟩ := start_pressRun readback 256
    rw [← hT0] at hstart hidle
    have hstores (j : Nat) (hj : j < 6) : stores (pressRun 256) (held readback) T j =
        ((steps readback 256 j).store 256).map fun p => (p.1.setWidth 10, p.2) := by
      rw [stores, harch j (by omega)]
      rfl
    have hload : (steps readback 256 6).load 256 = some (2, 1023) := by decide +kernel
    have hloaded := mapped_output.2 (pressRun 256) (held readback) T 6 2 1023 rfl
      (fun n hn _ => pressRun_low readback 256 n hn) hstart hidle hT (by rw [harch 6 (by decide)]; exact hload) (by decide)
    rw [lastWrite_congr hstores] at hloaded
    exact ⟨T 7, hloaded.trans (by decide +kernel)⟩

/-- The display test, started with 3 on the switches, shows 3 and overwrites the
last word of the memory. -/
theorem mapped_store_disturbs_memory :
    ¬ ∀ (x : Nat → Inputs) (s : State) (t n : Nat) (v : Word), s.resetAh = true →
      (∀ m, 0 < m → (run x s m).resetAh = false) → 256 < t → AtS18 (run x s t) →
      (run x s t).weSelect = false →
      FirstReturn SramTop.step (fun j => x (t + j)) (run x s t) AtS18 n →
      (arch (run x s t)).store (x (t + 3)).sw = some (0xffff#16, v) →
        (arch (run x s (t + n))).mem = (arch (run x s t)).mem := by
  intro h
  obtain ⟨t, n, hlate, hfetch, hidle, hreturn, harch, harch'⟩ := exists_instruction (fun _ => 0) 3 4 (by decide +kernel)
  have hstore : (steps (fun _ => 0) 3 4).store 3 = some (0xffff#16, 3) := by decide +kernel
  have hsame := h (pressRun 3) (held fun _ => 0) t n 3 rfl (pressRun_low (fun _ => 0) 3) hlate hfetch hidle hreturn
    (by rw [harch]; exact hstore)
  rw [harch', harch] at hsame
  exact absurd (congrFun hsame 1023) (by decide +kernel)

end ECE385.SLC3.MappedOutput
