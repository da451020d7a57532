import ECE385.SLC3.Loading

namespace ECE385.SLC3.Program

open Clocked.Machine (run_succ run_add FirstReturn)
open Clocked.LastWrite (lastWrite read_eq_lastWrite)
open Datapath (Word)
open Refinement (arch)
open SramTop (State Inputs run AtS18)

theorem idle_from {x : Nat → Inputs} {s : State} {t N n : Nat} (hidle : (run x s t).weSelect = false)
    (hlow : ∀ m, t ≤ m → m < N → (run x s m).resetAh = false) (hn : t ≤ n) (hlt : n < N) :
    (run x s n).weSelect = false := by
  obtain ⟨m, rfl⟩ := Nat.exists_eq_add_of_le hn
  rw [run, run_add]
  refine Refinement.weSelect_run (N := m + 1) (fun j hj => ?_) hidle m (Nat.lt_succ_self m)
  rw [run, ← run_add]
  exact hlow _ (Nat.le_add_right ..) (by omega)

/-- The controller is in S_18 at time `T 0`, and back there for the `k`-th time
at time `T k`. -/
structure Arrivals (x : Nat → Inputs) (s : State) (T : Nat → Nat) (count : Nat) : Prop where
  start : AtS18 (run x s (T 0))
  next : ∀ k, k < count → ∃ d, T (k + 1) = T k + d ∧
    FirstReturn SramTop.step (fun j => x (T k + j)) (run x s (T k)) AtS18 d

section Arrivals

variable {x : Nat → Inputs} {s : State} {T : Nat → Nat} {count : Nat}

theorem Arrivals.atS18 (h : Arrivals x s T count) {k : Nat} (hk : k ≤ count) : AtS18 (run x s (T k)) := by
  cases k with
  | zero => exact h.start
  | succ k =>
      obtain ⟨d, hT, hd⟩ := h.next k hk
      rw [hT, run, run_add]
      exact hd.arrived

theorem Arrivals.le (h : Arrivals x s T count) {j k : Nat} (hjk : j ≤ k) (hk : k ≤ count) : T j ≤ T k := by
  induction k with
  | zero => rw [Nat.le_zero.mp hjk]
  | succ k ih =>
      obtain ⟨d, hT, _⟩ := h.next k hk
      rcases Nat.lt_or_eq_of_le hjk with hlt | rfl
      · exact (ih (Nat.le_of_lt_succ hlt) (Nat.le_of_succ_le hk)).trans (by omega)
      · exact le_rfl

theorem Arrivals.lt (h : Arrivals x s T count) {j k : Nat} (hjk : j < k) (hk : k ≤ count) : T j < T k := by
  obtain ⟨d, hT, hd⟩ := h.next j (Nat.lt_of_lt_of_le hjk hk)
  have hpos := hd.pos
  have hle : T (j + 1) ≤ T k := h.le hjk hk
  omega

theorem Arrivals.lt_iff (h : Arrivals x s T count) {j k : Nat} (hj : j ≤ count) (hk : k ≤ count) :
    T j < T k ↔ j < k := by
  refine ⟨fun hlt => Nat.lt_of_not_le fun hle => ?_, fun hlt => h.lt hlt hk⟩
  exact Nat.not_lt.mpr (h.le hle hj) hlt

/-- Runs that agree up to a time have the same arrivals up to it. -/
theorem Arrivals.agree {x' : Nat → Inputs} {T' : Nat → Nat} {k N : Nat} (h : Arrivals x s T count)
    (h' : Arrivals x' s T' count) (hstart : T' 0 = T 0) (hagree : ∀ n, n ≤ N → run x' s n = run x s n)
    (hk : k ≤ count) (hN : T k ≤ N) : T' k = T k := by
  induction k with
  | zero => exact hstart
  | succ k ih =>
      have hT' : T' k = T k := ih (Nat.le_of_succ_le hk) ((h.le (Nat.le_succ k) hk).trans hN)
      obtain ⟨d, hT, hd⟩ := h.next k hk
      obtain ⟨d', hd', hreturn⟩ := h'.next k hk
      rw [hT'] at hd' hreturn
      have hsame : FirstReturn SramTop.step (fun j => x' (T k + j)) (run x' s (T k)) AtS18 d := by
        refine (FirstReturn.congr fun m hm => ?_).mpr hd
        rw [run, run, ← run_add, ← run_add, ← run, ← run, hagree (T k + m) (by omega)]
      rw [hd', hT, hreturn.unique hsame]

theorem Arrivals.extend (h : Arrivals x s T count) {d : Nat}
    (hd : FirstReturn SramTop.step (fun j => x (T count + j)) (run x s (T count)) AtS18 d) :
    ∃ T' : Nat → Nat, (∀ k, k ≤ count → T' k = T k) ∧ T' (count + 1) = T count + d ∧
      Arrivals x s T' (count + 1) := by
  have hold (k : Nat) (hk : k ≤ count) : (if k ≤ count then T k else T count + d) = T k := if_pos hk
  have hnew : (if count + 1 ≤ count then T (count + 1) else T count + d) = T count + d :=
    if_neg (Nat.not_succ_le_self count)
  refine ⟨fun k => if k ≤ count then T k else T count + d, hold, hnew, ⟨h.start, fun k hk => ?_⟩⟩
  rcases Nat.lt_or_eq_of_le (Nat.le_of_lt_succ hk) with hlt | rfl
  · rw [hold k hlt.le, hold (k + 1) hlt]
    exact h.next k hlt
  · rw [hold k le_rfl, hnew]
    exact ⟨d, rfl, hd⟩

/-- Up to any time, some sequence of arrivals has all the times in S_18. -/
theorem exists_arrivals_through {t : Nat} (hstart : AtS18 (run x s t)) (N : Nat) :
    ∃ T count, T 0 = t ∧ Arrivals x s T count ∧ T count ≤ t + N ∧
      ∀ n, n ≤ N → AtS18 (run x s (t + n)) → ∃ k, k ≤ count ∧ T k = t + n := by
  induction N with
  | zero =>
      refine ⟨fun _ => t, 0, rfl, ⟨hstart, fun k hk => absurd hk (Nat.not_lt_zero k)⟩, le_rfl, fun n hn _ => ?_⟩
      obtain rfl := Nat.le_zero.mp hn
      exact ⟨0, le_rfl, rfl⟩
  | succ N ih =>
      obtain ⟨T, count, rfl, hT, hlast, hall⟩ := ih
      by_cases hfetch : AtS18 (run x s (T 0 + (N + 1)))
      · obtain ⟨d, hd⟩ := Nat.exists_eq_add_of_le hlast
        have hreturn : FirstReturn SramTop.step (fun j => x (T count + j)) (run x s (T count)) AtS18 (d + 1) := by
          refine ⟨Nat.succ_pos d, ?_, fun m hm hlt hat => ?_⟩
          · rw [← run_add, ← Nat.add_assoc, ← hd]
            exact hfetch
          · rw [← run_add] at hat
            have hge := hT.le (Nat.zero_le count) le_rfl
            obtain ⟨k, hk, hTk⟩ := hall (T count + m - T 0) (by omega) (by rwa [Nat.add_sub_cancel' (by omega)])
            have hle := hT.le hk le_rfl
            omega
        obtain ⟨T', hold, hnew, hT'⟩ := hT.extend hreturn
        have hfirst := hold 0 (Nat.zero_le count)
        refine ⟨T', count + 1, hfirst, hT', by omega, fun n hn hat => ?_⟩
        rcases Nat.lt_or_eq_of_le hn with hlt | rfl
        · obtain ⟨k, hk, hTk⟩ := hall n (Nat.le_of_lt_succ hlt) hat
          exact ⟨k, Nat.le_succ_of_le hk, (hold k hk).trans hTk⟩
        · exact ⟨count + 1, le_rfl, by omega⟩
      · refine ⟨T, count, rfl, hT, hlast.trans (Nat.le_succ _), fun n hn hat => ?_⟩
        rcases Nat.lt_or_eq_of_le hn with hlt | rfl
        · exact hall n (Nat.le_of_lt_succ hlt) hat
        · exact absurd hat hfetch

section Undisturbed

variable (h : Arrivals x s T count) (hidle : (run x s (T 0)).weSelect = false)
  (hlow : ∀ n, T 0 ≤ n → n < T count → (run x s n).resetAh = false)

include h hidle hlow

theorem Arrivals.arch_next {k : Nat} (hk : k < count) :
    arch (run x s (T (k + 1))) = (arch (run x s (T k))).next (x (T k + 3)).sw (x (T k + 9)).sw := by
  obtain ⟨d, hT, hd⟩ := h.next k hk
  have hfirst := h.le (Nat.zero_le k) hk.le
  have hlast : T (k + 1) ≤ T count := h.le hk le_rfl
  rw [hT, run, run_add]
  refine Refinement.arch_at_return (fun m hm => ?_) ?_ (h.atS18 hk.le) hd
  · rw [run, ← run_add]
    exact hlow _ (by omega) (by omega)
  · exact idle_from hidle hlow hfirst (h.lt hk le_rfl)

end Undisturbed

end Arrivals

def stores (x : Nat → Inputs) (s : State) (T : Nat → Nat) (k : Nat) : Option (BitVec 10 × Word) :=
  ((arch (run x s (T k))).store (x (T k + 3)).sw).map fun p => (p.1.setWidth 10, p.2)

/-- Any word of the memory is the last word stored there, or else the one that
the program started with. -/
theorem mem_eq_lastStore {x : Nat → Inputs} {s : State} {T : Nat → Nat} {count : Nat}
    (h : Arrivals x s T count) (hidle : (run x s (T 0)).weSelect = false)
    (hlow : ∀ n, T 0 ≤ n → n < T count → (run x s n).resetAh = false) (a : BitVec 10) {k : Nat}
    (hk : k ≤ count) :
    (arch (run x s (T k))).mem a =
      (lastWrite (stores x s T) a k).getD ((arch (run x s (T 0))).mem a) := by
  refine read_eq_lastWrite (m := fun j => (arch (run x s (T j))).mem) (fun j hj => ?_) a hk
  rw [h.arch_next hidle hlow hj, Isa.next_mem]
  rfl

section Existence

variable {x : Nat → Inputs} {s : State} {sw : BitVec 10} {t : Nat}

/-- With the switches at rest, a program runs for as long as it meets no PSE. -/
theorem exists_arrivals (hsw : ∀ n, (x n).sw = sw) (hstart : AtS18 (run x s t))
    (hidle : (run x s t).weSelect = false) (hlow : ∀ n, t ≤ n → (run x s n).resetAh = false)
    (count : Nat)
    (hpse : ∀ k, k < count →
      Isa.decode (((fun a => a.next sw sw)^[k] (arch (run x s t))).fetch sw) ≠ .pse) :
    ∃ T : Nat → Nat, T 0 = t ∧ Arrivals x s T count ∧
      ∀ k, k ≤ count → arch (run x s (T k)) = (fun a => a.next sw sw)^[k] (arch (run x s t)) := by
  induction count with
  | zero =>
      refine ⟨fun _ => t, rfl, ⟨hstart, fun k hk => absurd hk (Nat.not_lt_zero k)⟩, fun k hk => ?_⟩
      obtain rfl := Nat.le_zero.mp hk
      rfl
  | succ count ih =>
      obtain ⟨T, rfl, hT, harch⟩ := ih fun k hk => hpse k (by omega)
      have hge := hT.le (Nat.zero_le count) le_rfl
      have hfetch := hT.atS18 le_rfl
      have hidle' := idle_from hidle (fun m hm _ => hlow m hm) hge (Nat.lt_succ_self _)
      have hlow' (m : Nat) : (run (fun j => x (T count + j)) (run x s (T count)) m).resetAh = false := by
        rw [run, ← run_add]
        exact hlow _ (by omega)
      have hinstr : Isa.decode ((arch (run x s (T count))).fetch (x (T count + 3)).sw) ≠ .pse := by
        rw [hsw, harch count le_rfl]
        exact hpse count (Nat.lt_succ_self count)
      obtain ⟨d, _, hd⟩ := Refinement.exists_return hlow' hidle' hfetch hinstr
      obtain ⟨T', hold, hnew, hT'⟩ := hT.extend hd
      refine ⟨T', hold 0 (Nat.zero_le count), hT', fun k hk => ?_⟩
      rcases Nat.lt_or_eq_of_le hk with hlt | rfl
      · rw [hold k (Nat.le_of_lt_succ hlt)]
        exact harch k (Nat.le_of_lt_succ hlt)
      · have hreturn := Refinement.arch_at_return (fun m _ => hlow' m) hidle' hfetch hd
        rw [run, ← run_add, harch count le_rfl, hsw, hsw] at hreturn
        rw [hnew, Function.iterate_succ_apply']
        exact hreturn

end Existence

end ECE385.SLC3.Program
