import Mathlib.Order.Monotone.Basic
import Mathlib.Order.WellFounded
import Mathlib.Tactic.Choose
import Mathlib.Logic.Function.Iterate
import ECE385.Clocked.Machine

namespace ECE385.Clocked.Progress

open Machine

variable {ι σ : Type*}

/-- Whatever the inputs, the machine gets into `Q` within `n` steps from `s`,
each of them taken from a state in `G`. -/
def Within (next : ι → σ → σ) (G Q : σ → Prop) : Nat → σ → Prop
  | 0, s => Q s
  | n + 1, s => Q s ∨ G s ∧ ∀ i, Within next G Q n (next i s)

variable {next : ι → σ → σ} {G Q R : σ → Prop} {m n : Nat} {s : σ}

theorem Within.done (h : Q s) : Within next G Q n s := by
  cases n with
  | zero => exact h
  | succ n => exact .inl h

theorem Within.step (hG : G s) (h : ∀ i, Within next G Q n (next i s)) : Within next G Q (n + 1) s :=
  .inr ⟨hG, h⟩

theorem Within.mono (h : Within next G Q n s) (hle : n ≤ m) : Within next G Q m s := by
  induction n generalizing s m with
  | zero => exact .done h
  | succ n ih =>
      obtain ⟨m, rfl⟩ := Nat.exists_eq_succ_of_ne_zero (Nat.ne_zero_of_lt hle)
      rcases h with h | ⟨hG, h⟩
      · exact .done h
      · exact .step hG fun i => ih (h i) (Nat.le_of_succ_le_succ hle)

theorem Within.trans (h : Within next G R m s) (hR : ∀ t, R t → Within next G Q n t) :
    Within next G Q (n + m) s := by
  induction m generalizing s with
  | zero => exact hR s h
  | succ m ih =>
      rcases h with h | ⟨hG, h⟩
      · exact (hR s h).mono (Nat.le_add_right ..)
      · exact .step hG fun i => ih (h i)

theorem Within.weaken {G' : σ → Prop} (h : Within next G Q n s) (hG : ∀ t, G t → G' t) :
    Within next G' Q n s := by
  induction n generalizing s with
  | zero => exact h
  | succ n ih =>
      rcases h with h | ⟨hs, h⟩
      · exact .done h
      · exact .step (hG s hs) fun i => ih (h i)

theorem Within.on_run (h : Within next G Q n s) (x : Nat → ι) :
    ∃ m, m ≤ n ∧ Q (run next x s m) ∧ ∀ j, j < m → G (run next x s j) := by
  induction n generalizing s x with
  | zero => exact ⟨0, le_rfl, h, fun j hj => absurd hj (Nat.not_lt_zero j)⟩
  | succ n ih =>
      rcases h with h | ⟨hG, h⟩
      · exact ⟨0, Nat.zero_le _, h, fun j hj => absurd hj (Nat.not_lt_zero j)⟩
      · obtain ⟨m, hm, hQ, hbefore⟩ := ih (h (x 0)) fun k => x (k + 1)
        refine ⟨m + 1, Nat.succ_le_succ hm, by rwa [run_shift], fun j hj => ?_⟩
        cases j with
        | zero => exact hG
        | succ j =>
            rw [run_shift]
            exact hbefore j (Nat.lt_of_succ_lt_succ hj)

/-- A loop whose every pass takes `period` steps. -/
theorem run_passes {I : Nat → σ → Prop} {period N : Nat} (x : Nat → ι) (hstart : I 0 s)
    (hpass : ∀ j t (y : Nat → ι), j < N → I j t → I (j + 1) (run next y t period)) {j : Nat} (hj : j ≤ N) :
    I j (run next x s (period * j)) := by
  induction j with
  | zero => exact hstart
  | succ j ih =>
      rw [Nat.mul_succ, run_add]
      exact hpass j _ _ hj (ih (Nat.le_of_succ_le hj))

/-- When each visit is followed by another, there is a sequence of them. -/
theorem exists_visits {P : Nat → Prop} {Q : Nat → Nat → Prop} {t : Nat} (ht : P t)
    (hnext : ∀ k, P k → ∃ d, Q k d ∧ P (k + d)) :
    ∃ T : Nat → Nat, T 0 = t ∧ ∀ n, P (T n) ∧ ∃ d, T (n + 1) = T n + d ∧ Q (T n) d := by
  choose! d hQ hP using hnext
  have hvisit (n : Nat) : P ((fun k => k + d k)^[n] t) := by
    induction n with
    | zero => exact ht
    | succ n ih =>
        rw [Function.iterate_succ_apply']
        exact hP _ ih
  refine ⟨fun n => (fun k => k + d k)^[n] t, rfl, fun n => ⟨hvisit n, _, ?_, hQ _ (hvisit n)⟩⟩
  exact Function.iterate_succ_apply' ..

/-- First returns, one after the other, leave out no visit. -/
theorem visits_complete {step : ι → σ → σ} {P : σ → Prop} {x : Nat → ι} {T : Nat → Nat}
    (hstart : ∀ n, n < T 0 → ¬P (run step x s n)) (hvisit : ∀ i, P (run step x s (T i)))
    (hnext : ∀ i, ∃ d, T (i + 1) = T i + d ∧ FirstReturn step (fun j => x (T i + j)) (run step x s (T i)) P d) (n : Nat) :
    P (run step x s n) ↔ ∃ i, T i = n := by
  refine ⟨fun hP => ?_, fun ⟨i, hi⟩ => hi ▸ hvisit i⟩
  have hgrows (i : Nat) : T i < T (i + 1) := by
    obtain ⟨d, heq, hd⟩ := hnext i
    have hpos := hd.pos
    omega
  have hpassed (i : Nat) : (∃ j, T j = n) ∨ T i < n := by
    induction i with
    | zero =>
        rcases Nat.lt_trichotomy n (T 0) with hlt | heq | hlt
        · exact absurd hP (hstart n hlt)
        · exact .inl ⟨0, heq.symm⟩
        · exact .inr hlt
    | succ i ih =>
        refine ih.elim .inl fun hi => ?_
        obtain ⟨d, heq, hd⟩ := hnext i
        obtain ⟨e, rfl⟩ := Nat.exists_eq_add_of_le hi.le
        have hpos : 0 < e := Nat.pos_of_lt_add_right hi
        rcases Nat.lt_trichotomy e d with hlt | rfl | hlt
        · rw [run_add] at hP
          exact absurd hP (hd.before e hpos hlt)
        · exact .inl ⟨i + 1, heq⟩
        · exact .inr (heq ▸ Nat.add_lt_add_left hlt _)
  exact (hpassed n).resolve_right (Nat.not_lt.mpr (strictMono_nat_of_lt_succ hgrows).le_apply)

def prepend (l : List ι) (x : Nat → ι) : Nat → ι :=
  match l with
  | [] => x
  | i :: l => fun n =>
      match n with
      | 0 => i
      | n + 1 => prepend l x n

theorem run_prepend (l : List ι) (x : Nat → ι) (s : σ) (n : Nat) :
    run next (prepend l x) s (l.length + n) = run next x (l.foldl (fun s i => next i s) s) n := by
  induction l generalizing s with
  | nil =>
      rw [List.length_nil, Nat.zero_add]
      rfl
  | cons i l ih =>
      rw [List.length_cons, Nat.succ_add, run_shift]
      exact ih (next i s)

theorem prepend_add (l : List ι) (x : Nat → ι) (n : Nat) : prepend l x (l.length + n) = x n := by
  induction l with
  | nil =>
      rw [List.length_nil, Nat.zero_add]
      rfl
  | cons i l ih =>
      rw [List.length_cons, Nat.succ_add]
      exact ih

end ECE385.Clocked.Progress
