import Mathlib.Data.Nat.Find

namespace ECE385.Clocked.Machine

variable {ι κ σ τ : Type*}

/-- The state after `n` edges of a synchronous machine fed by the stream `x`. -/
def run (step : ι → σ → σ) (x : Nat → ι) (s : σ) : Nat → σ
  | 0 => s
  | n + 1 => step (x n) (run step x s n)

@[simp] theorem run_zero (step : ι → σ → σ) (x : Nat → ι) (s : σ) : run step x s 0 = s := rfl

theorem run_succ (step : ι → σ → σ) (x : Nat → ι) (s : σ) (n : Nat) :
    run step x s (n + 1) = step (x n) (run step x s n) := rfl

theorem run_add (step : ι → σ → σ) (x : Nat → ι) (s : σ) (m n : Nat) :
    run step x s (m + n) = run step (fun k => x (m + k)) (run step x s m) n := by
  induction n with
  | zero => rfl
  | succ n ih => rw [← Nat.add_assoc, run_succ, ih, run_succ]

theorem run_shift (step : ι → σ → σ) (x : Nat → ι) (s : σ) (n : Nat) :
    run step x s (n + 1) = run step (fun k => x (k + 1)) (step (x 0) s) n := by
  induction n with
  | zero => rfl
  | succ n ih => rw [run_succ, ih, run_succ]

theorem run_congr {step : ι → σ → σ} {x y : Nat → ι} {s : σ} {n : Nat} (h : ∀ m, m < n → x m = y m) :
    run step x s n = run step y s n := by
  induction n with
  | zero => rfl
  | succ n ih =>
      rw [run_succ, run_succ, h n (Nat.lt_succ_self n), ih fun m hm => h m (Nat.lt_succ_of_lt hm)]

/-- What holds at the start and survives every edge holds at every time. The
invariant may speak of the time, so it can follow a schedule. -/
theorem run_invariant {step : ι → σ → σ} {x : Nat → ι} {s : σ} (I : Nat → σ → Prop)
    (hstart : I 0 s) (hstep : ∀ n t, I n t → I (n + 1) (step (x n) t)) (n : Nat) :
    I n (run step x s n) := by
  induction n with
  | zero => exact hstart
  | succ n ih => exact hstep n _ ih

/-- A controller that follows a schedule in every cycle before it is done gets
through the whole of it. -/
theorem run_follows {γ : Type*} {step : ι → σ → σ} {x : Nat → ι} {s : σ} {c : σ → γ} {schedule : Nat → γ}
    {done : γ} {N : Nat} (hstart : c s = schedule 0) (hbusy : ∀ n, n < N → schedule n ≠ done)
    (hnext : ∀ n, n < N → (∀ m, m ≤ n → c (run step x s m) ≠ done) → c (run step x s n) = schedule n →
      c (run step x s (n + 1)) = schedule (n + 1)) {n : Nat} (hn : n ≤ N) : c (run step x s n) = schedule n := by
  induction n using Nat.strong_induction_on with
  | h n ih =>
      cases n with
      | zero => exact hstart
      | succ n =>
          have hbefore (m : Nat) (hm : m ≤ n) : c (run step x s m) = schedule m :=
            ih m (Nat.lt_succ_of_le hm) (Nat.le_trans hm (Nat.le_of_succ_le hn))
          refine hnext n hn (fun m hm => ?_) (hbefore n le_rfl)
          rw [hbefore m hm]
          exact hbusy m (Nat.lt_of_le_of_lt hm hn)

theorem run_rests {α : Type*} {step : ι → σ → σ} {x : Nat → ι} {s : σ} {P R : σ → Prop} {g : σ → α}
    (hstep : ∀ i t, P t → ¬R t → P (step i t) ∧ g (step i t) = g t) {m n : Nat} (hm : P (run step x s m))
    (hmn : m ≤ n) (hstays : ∀ k, m ≤ k → k < n → ¬R (run step x s k)) :
    P (run step x s n) ∧ g (run step x s n) = g (run step x s m) := by
  induction n, hmn using Nat.le_induction with
  | base => exact ⟨hm, rfl⟩
  | succ n hmn ih =>
      obtain ⟨hrests, hkept⟩ := ih fun k hk hlt => hstays k hk (Nat.lt_succ_of_lt hlt)
      obtain ⟨hrests', hkept'⟩ := hstep (x n) _ hrests (hstays n hmn (Nat.lt_succ_self n))
      exact ⟨hrests', hkept'.trans hkept⟩

/-- The first time after the start at which `P` holds. -/
structure FirstReturn (step : ι → σ → σ) (x : Nat → ι) (s : σ) (P : σ → Prop) (n : Nat) : Prop where
  pos : 0 < n
  arrived : P (run step x s n)
  before : ∀ m, 0 < m → m < n → ¬P (run step x s m)

theorem FirstReturn.unique {step : ι → σ → σ} {x : Nat → ι} {s : σ} {P : σ → Prop} {m n : Nat}
    (hm : FirstReturn step x s P m) (hn : FirstReturn step x s P n) : m = n := by
  rcases Nat.lt_trichotomy m n with h | h | h
  · exact absurd hm.arrived (hn.before m hm.pos h)
  · exact h
  · exact absurd hn.arrived (hm.before n hn.pos h)

theorem FirstReturn.exists_le {step : ι → σ → σ} {x : Nat → ι} {s : σ} {P : σ → Prop} {n : Nat}
    (hpos : 0 < n) (h : P (run step x s n)) : ∃ m, m ≤ n ∧ FirstReturn step x s P m := by
  classical
  have hex : ∃ m, 0 < m ∧ P (run step x s m) := ⟨n, hpos, h⟩
  refine ⟨Nat.find hex, Nat.find_min' hex ⟨hpos, h⟩, (Nat.find_spec hex).1, (Nat.find_spec hex).2, ?_⟩
  intro m hm hlt hp
  exact Nat.find_min hex hlt ⟨hm, hp⟩

theorem FirstReturn.congr {step : ι → σ → σ} {next : κ → τ → τ} {x : Nat → ι} {y : Nat → κ} {s : σ} {t : τ}
    {P : σ → Prop} {Q : τ → Prop} {n : Nat} (h : ∀ m, m ≤ n → (P (run step x s m) ↔ Q (run next y t m))) :
    FirstReturn step x s P n ↔ FirstReturn next y t Q n := by
  constructor
  · intro hn
    exact ⟨hn.pos, (h n le_rfl).mp hn.arrived, fun m hm hlt hq => hn.before m hm hlt ((h m (Nat.le_of_lt hlt)).mpr hq)⟩
  · intro hn
    exact ⟨hn.pos, (h n le_rfl).mpr hn.arrived, fun m hm hlt hp => hn.before m hm hlt ((h m (Nat.le_of_lt hlt)).mp hp)⟩

/-- The machine leaves `s`, stays outside `P` and enters it in state `t`, `n` edges later. -/
structure Excursion (step : ι → σ → σ) (P : σ → Prop) (x : Nat → ι) (s : σ) (n : Nat) (t : σ) : Prop
    extends FirstReturn step x s P n where
  lands : run step x s n = t

theorem Excursion.last {step : ι → σ → σ} {P : σ → Prop} {x : Nat → ι} {s t : σ}
    (h : step (x 0) s = t) (hP : P t) : Excursion step P x s 1 t := by
  refine ⟨⟨Nat.one_pos, ?_, fun m hm hlt => by omega⟩, h⟩
  rw [run_succ, run_zero, h]
  exact hP

/-- Edge by edge the machine goes from `s` to `t` without entering `P`. -/
structure Passage (step : ι → σ → σ) (P : σ → Prop) (x : Nat → ι) (s : σ) (k : Nat) (t : σ) : Prop where
  lands : run step x s k = t
  outside : ∀ m, 0 < m → m ≤ k → ¬P (run step x s m)

theorem Passage.refl (step : ι → σ → σ) (P : σ → Prop) (x : Nat → ι) (s : σ) :
    Passage step P x s 0 s :=
  ⟨rfl, fun m hm hle => by omega⟩

theorem Passage.next {step : ι → σ → σ} {P : σ → Prop} {x : Nat → ι} {s t u : σ} {k : Nat}
    (h : step (x 0) s = u) (hP : ¬P u) (ht : Passage step P (fun j => x (j + 1)) u k t) :
    Passage step P x s (k + 1) t := by
  subst u
  refine ⟨by rw [run_shift]; exact ht.lands, ?_⟩
  intro m hm hle
  obtain ⟨j, rfl⟩ := Nat.exists_eq_succ_of_ne_zero (Nat.pos_iff_ne_zero.mp hm)
  rcases j with _ | j
  · exact hP
  · rw [run_shift]; exact ht.outside (j + 1) (Nat.succ_pos j) (by omega)

theorem Passage.run_add {step : ι → σ → σ} {P : σ → Prop} {x : Nat → ι} {s t : σ} {k : Nat}
    (h : Passage step P x s k t) (n : Nat) :
    run step x s (n + k) = run step (fun j => x (j + k)) t n := by
  rw [Nat.add_comm, Machine.run_add, h.lands]
  simp only [Nat.add_comm k]

theorem Passage.trans {step : ι → σ → σ} {P : σ → Prop} {x : Nat → ι} {s t u : σ} {j k : Nat}
    (h : Passage step P x s k u) (ht : Passage step P (fun i => x (i + k)) u j t) :
    Passage step P x s (j + k) t := by
  refine ⟨by rw [h.run_add]; exact ht.lands, ?_⟩
  intro m hm hle
  by_cases hk : m ≤ k
  · exact h.outside m hm hk
  · obtain ⟨i, rfl⟩ := Nat.exists_eq_add_of_le' (Nat.le_of_not_le hk)
    rw [h.run_add]
    exact ht.outside i (by omega) (by omega)

theorem Passage.firstReturn_iff {step : ι → σ → σ} {P : σ → Prop} {x : Nat → ι} {s t : σ} {k n : Nat}
    (h : Passage step P x s k t) :
    FirstReturn step x s P (n + k) ↔ FirstReturn step (fun j => x (j + k)) t P n := by
  constructor
  · intro hn
    refine ⟨Nat.pos_of_ne_zero ?_, by rw [← h.run_add]; exact hn.arrived, ?_⟩
    · rintro rfl
      rw [Nat.zero_add] at hn
      exact h.outside k hn.pos le_rfl hn.arrived
    · intro m hm hlt
      rw [← h.run_add]
      exact hn.before (m + k) (by omega) (by omega)
  · intro hn
    refine ⟨Nat.add_pos_left hn.pos k, by rw [h.run_add]; exact hn.arrived, ?_⟩
    intro m hm hlt
    by_cases hk : m ≤ k
    · exact h.outside m hm hk
    · obtain ⟨j, rfl⟩ := Nat.exists_eq_add_of_le' (Nat.le_of_not_le hk)
      rw [h.run_add]
      exact hn.before j (by omega) (by omega)

theorem Passage.le_of_firstReturn {step : ι → σ → σ} {P : σ → Prop} {x : Nat → ι} {s t : σ} {k n : Nat}
    (h : Passage step P x s k t) (hn : FirstReturn step x s P n) : k ≤ n := by
  by_contra hlt
  exact h.outside n hn.pos (by omega) hn.arrived

theorem Passage.excursion {step : ι → σ → σ} {P : σ → Prop} {x : Nat → ι} {s t u : σ} {k n : Nat}
    (h : Passage step P x s k u) (ht : Excursion step P (fun j => x (j + k)) u n t) :
    Excursion step P x s (n + k) t :=
  ⟨h.firstReturn_iff.mpr ht.toFirstReturn, by rw [h.run_add]; exact ht.lands⟩

theorem Excursion.next {step : ι → σ → σ} {P : σ → Prop} {x : Nat → ι} {s t u : σ} {n : Nat}
    (h : step (x 0) s = u) (hP : ¬P u) (ht : Excursion step P (fun k => x (k + 1)) u n t) :
    Excursion step P x s (n + 1) t :=
  (Passage.next h hP (.refl ..)).excursion ht

end ECE385.Clocked.Machine
