import ECE385.SLC3.Multiplication
import ECE385.SLC3.Stepping

namespace ECE385.SLC3.Launch

open Clocked.Machine (run_add run_succ FirstReturn)
open Execution
open Multiplication (pressing)
open Program (Arrivals)
open Refinement (arch)
open SramTop (State Inputs run AtS18)

/-- The arrivals of a program in S_18. Reset stays low from the first of them on. -/
structure Launched (x : Nat → Inputs) (s : State) (T : Nat → Nat) (count : Nat) : Prop
    extends Arrivals x s T count where
  idle : (run x s (T 0)).weSelect = false
  low : ∀ n, T 0 ≤ n → (run x s n).resetAh = false

/-- The switches that the instruction of each arrival sees. -/
def switches (x : Nat → Inputs) (T : Nat → Nat) (k : Nat) : Switches := ((x (T k + 3)).sw, (x (T k + 9)).sw)

section Launched

variable {x : Nat → Inputs} {s : State} {T : Nat → Nat} {count k : Nat} (h : Launched x s T count)

include h

theorem Launched.arch_at (hk : k ≤ count) :
    arch (run x s (T k)) = Clocked.Machine.run next (switches x T) (arch (run x s (T 0))) k := by
  induction k with
  | zero => rfl
  | succ k ih =>
      rw [h.toArrivals.arch_next h.idle (fun n hn _ => h.low n hn) hk, run_succ, ← ih (Nat.le_of_succ_le hk)]
      rfl

theorem Launched.arch_after {p : Nat} (hk : p + k ≤ count) : arch (run x s (T (p + k))) =
    Clocked.Machine.run next (fun i => switches x T (p + i))
      (Clocked.Machine.run next (switches x T) (arch (run x s (T 0))) p) k := by
  rw [h.arch_at hk, run_add]

theorem Launched.low_from (hk : k ≤ count) (n : Nat) :
    (run (fun j => x (T k + j)) (run x s (T k)) n).resetAh = false := by
  rw [run, ← run_add]
  exact h.low _ (Nat.le_add_right_of_le (h.toArrivals.le (Nat.zero_le k) hk))

theorem Launched.idle_at (hk : k ≤ count) : (run x s (T k)).weSelect = false :=
  Program.idle_from h.idle (fun m hm _ => h.low m hm) (h.toArrivals.le (Nat.zero_le k) hk) (Nat.lt_succ_self _)

/-- What is no pause is over after eleven cycles, whatever is done with Continue. -/
theorem Launched.goes_on (hk : k ≤ count) (hpse : ∀ sw, Isa.decode ((arch (run x s (T k))).fetch sw) ≠ .pse) :
    ∃ d, d ≤ 11 ∧ FirstReturn SramTop.step (fun j => x (T k + j)) (run x s (T k)) AtS18 d ∧
      (k < count → T (k + 1) = T k + d) := by
  obtain ⟨d, hd, hreturn⟩ := Refinement.exists_return (h.low_from hk) (h.idle_at hk) (h.toArrivals.atS18 hk) (hpse _)
  refine ⟨d, hd, hreturn, fun hlt => ?_⟩
  obtain ⟨d', hT, hreturn'⟩ := h.next k hlt
  rw [hT, hreturn.unique hreturn']

/-- The display stands still while the processor pauses, for however long. -/
theorem Launched.hexData_pause (hk : k ≤ count) (hpse : ∀ sw, Isa.decode ((arch (run x s (T k))).fetch sw) = .pse)
    {n : Nat} (hn : T k ≤ n) (hwait : ∀ m, T k < m → m < n → ¬AtS18 (run x s m)) :
    (run x s n).slc.hexData = (run x s (T k)).slc.hexData := by
  obtain ⟨d, rfl⟩ := Nat.exists_eq_add_of_le hn
  rw [run, run_add]
  refine Refinement.hexData_pause (fun m _ => h.low_from hk m) (h.idle_at hk) (h.toArrivals.atS18 hk) (hpse _) le_rfl
    fun m hm hlt => ?_
  rw [run, ← run_add]
  exact hwait _ (Nat.lt_add_of_pos_right hm) (Nat.add_lt_add_left hlt _)

/-- At its `k`-th arrival the processor pauses at `address`, and the display
shows `v` until the pause ends. -/
structure Pauses (x : Nat → Inputs) (s : State) (T : Nat → Nat) (k : Nat) (address v : Isa.Word) : Prop where
  pc : (arch (run x s (T k))).pc = address
  shows : ∀ n, T k ≤ n → (∀ m, T k < m → m < n → ¬AtS18 (run x s m)) → (run x s n).slc.hexData = v

theorem Launched.pauses {a : Isa.State} {address v : Isa.Word} (hk : k ≤ count) (ha : arch (run x s (T k)) = a)
    (hpc : a.pc = address) (hhex : a.hex = v) (hpse : ∀ sw, Isa.decode (a.fetch sw) = .pse) :
    Pauses x s T k address v := by
  subst ha
  exact ⟨hpc, fun n hn hwait => (h.hexData_pause hk hpse hn hwait).trans hhex⟩

end Launched

/-- A stretch of instructions without a pause is over in time, whatever is done with Continue. -/
theorem exists_stretch {x : Nat → Inputs} {s : State} {t n : Nat} (hfetch : AtS18 (run x s t))
    (hidle : (run x s t).weSelect = false) (hlow : ∀ m, t ≤ m → (run x s m).resetAh = false)
    (hpse : ∀ y k, k < n → ∀ sw, Isa.decode ((Clocked.Machine.run next y (arch (run x s t)) k).fetch sw) ≠ .pse) :
    ∃ T, T 0 = t ∧ (∀ k, k ≤ n → T k ≤ t + 11 * k) ∧ Launched x s T n := by
  induction n with
  | zero =>
      refine ⟨fun _ => t, rfl, fun k _ => Nat.le_add_right .., ⟨hfetch, fun k hk => ?_⟩, hidle, hlow⟩
      exact absurd hk (Nat.not_lt_zero k)
  | succ n ih =>
      obtain ⟨T, rfl, hsoon, hlaunched⟩ := ih fun y k hk => hpse y k (Nat.lt_succ_of_lt hk)
      obtain ⟨d, hd, hreturn, -⟩ := hlaunched.goes_on le_rfl fun sw => by
        rw [hlaunched.arch_at le_rfl]
        exact hpse _ n (Nat.lt_succ_self n) sw
      obtain ⟨U, hold, hnew, harrivals⟩ := hlaunched.toArrivals.extend hreturn
      have hstart : U 0 = T 0 := hold 0 (Nat.zero_le n)
      refine ⟨U, hstart, fun k hk => ?_, harrivals, by rw [hstart]; exact hidle, by rw [hstart]; exact hlow⟩
      rcases Nat.lt_or_eq_of_le hk with hlt | rfl
      · rw [hold k (Nat.le_of_lt_succ hlt)]
        exact hsoon k (Nat.le_of_lt_succ hlt)
      · have hlast := hsoon n le_rfl
        omega

def PressedForever (x : Nat → Inputs) (s : State) : Prop :=
  ∀ n, ∃ p q, n ≤ p ∧ p < q ∧ (run x s p).contAh = true ∧ (run x s q).contAh = false

theorem exists_launched {x : Nat → Inputs} {s : State} {t : Nat} (hfetch : AtS18 (run x s t))
    (hidle : (run x s t).weSelect = false) (hlow : ∀ n, t ≤ n → (run x s n).resetAh = false)
    (hpressed : PressedForever x s) : ∃ T, T 0 = t ∧ ∀ count, Launched x s T count := by
  have hnext (k : Nat) (hk : t ≤ k ∧ AtS18 (run x s k)) :
      ∃ d, FirstReturn SramTop.step (fun j => x (k + j)) (run x s k) AtS18 d ∧ t ≤ k + d ∧ AtS18 (run x s (k + d)) := by
    obtain ⟨hle, hat⟩ := hk
    obtain ⟨p, q, hp, hpq, hpress, hrelease⟩ := hpressed (k + 6)
    obtain ⟨p, rfl⟩ := Nat.exists_eq_add_of_le (Nat.le_of_add_right_le hp)
    obtain ⟨q, rfl⟩ := Nat.exists_eq_add_of_le (Nat.le_of_add_right_le (hp.trans hpq.le))
    have hlow' (n : Nat) : (run (fun j => x (k + j)) (run x s k) n).resetAh = false := by
      rw [run, ← run_add]
      exact hlow _ (Nat.le_add_right_of_le hle)
    have hidle' := Program.idle_from hidle (fun m hm _ => hlow m hm) hle (Nat.lt_succ_self k)
    rw [run, run_add] at hpress hrelease
    obtain ⟨d, _, hd⟩ := Refinement.return_of_release hlow' hidle' hat (Nat.le_of_add_le_add_left hp)
      (Nat.lt_of_add_lt_add_left hpq) hpress hrelease
    refine ⟨d, hd, Nat.le_add_right_of_le hle, ?_⟩
    rw [run, run_add]
    exact hd.arrived
  obtain ⟨T, rfl, hT⟩ := Clocked.Progress.exists_visits (P := fun k => t ≤ k ∧ AtS18 (run x s k)) ⟨le_rfl, hfetch⟩ hnext
  exact ⟨T, rfl, fun count => ⟨⟨hfetch, fun k _ => (hT k).2⟩, hidle, hlow⟩⟩

section Ready

def ready (pc : Isa.Word) : State :=
  { SramTop.settled fun a => Instantiateram.data (a.setWidth 16) with
    slc := ⟨.s18, ⟨fun _ => 0, pc, 0, 0, 0, 0, false, 0⟩, 0⟩ }

theorem pressed_forever (sw : Nat → BitVec 10) (s : State) : PressedForever (fun n => pressing (sw n) n) s := by
  intro n
  have hlevel (k : Nat) : (run (fun n => pressing (sw n) n) s (k + 1)).contAh = !decide (k % 2 = 1) := rfl
  refine ⟨2 * n + 1, 2 * n + 1 + 1, by omega, Nat.lt_succ_self _, ?_, ?_⟩
  · rw [hlevel, Nat.mul_mod_right]
    rfl
  · rw [hlevel, Nat.mul_add_mod_self_left]
    rfl

theorem launched_ready (sw : Nat → BitVec 10) (pc : Isa.Word) :
    ∃ T, T 0 = 0 ∧ ∀ count, Launched (fun n => pressing (sw n) n) (ready pc) T count := by
  refine exists_launched rfl rfl (fun n _ => ?_) (pressed_forever sw _)
  cases n <;> rfl

end Ready

end ECE385.SLC3.Launch
