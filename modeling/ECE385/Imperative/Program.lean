import Mathlib.Logic.Basic

namespace ECE385.Imperative.Program

/-- Why a program ends without a result: its loops ran out of fuel, it was about to
store behind the end of a buffer, or it did something else that the language leaves
undefined. -/
inductive Stop (ε : Type)
  | fuel
  | overrun
  | error (e : ε)

/-- What a partial statement puts up with. -/
def Stop.Short {ε : Type} : Stop ε → Prop
  | .error _ => False
  | _ => True

/-- What a total statement puts up with. -/
def Stop.Never {ε : Type} (_ : Stop ε) : Prop := False

abbrev Prog (ε σ α : Type) := StateT σ (Except (Stop ε)) α

variable {ε σ α β : Type}

/-- Passes through `body`, each with the locals that the one before left, until
one of them ends the loop. -/
def loop (body : β → Prog ε σ (β ⊕ α)) : Nat → β → Prog ε σ α
  | 0, _ => throw .fuel
  | fuel + 1, b => do
      match ← body b with
      | .inl b' => loop body fuel b'
      | .inr a => pure a

def doIf (c : Prop) [Decidable c] (m : Prog ε σ Unit) : Prog ε σ Unit := if c then m else pure ()

def fail (e : ε) : Prog ε σ α := throw (.error e)

/-- From `s` the program ends in `Q`, or stops in a way that `F` puts up with. -/
def wp (F : Stop ε → Prop) (m : Prog ε σ α) (Q : α → σ → Prop) (s : σ) : Prop :=
  match m s with
  | .ok r => Q r.1 r.2
  | .error e => F e

section Rules

variable {F G : Stop ε → Prop} {s : σ} {P Q : α → σ → Prop}

@[simp] theorem wp_pure (a : α) : wp F (pure a : Prog ε σ α) Q s ↔ Q a s := Iff.rfl

@[simp] theorem wp_get {Q : σ → σ → Prop} : wp F (get : Prog ε σ σ) Q s ↔ Q s s := Iff.rfl

@[simp] theorem wp_bind (m : Prog ε σ β) (f : β → Prog ε σ α) :
    wp F (m >>= f) Q s ↔ wp F m (fun b t => wp F (f b) Q t) s := by
  have hbind : (m >>= f) s = m s >>= fun r => f r.1 r.2 := rfl
  rw [wp, wp, hbind]
  cases m s with
  | ok r => exact Iff.rfl
  | error e => exact Iff.rfl

@[simp] theorem wp_map (f : β → α) (m : Prog ε σ β) : wp F (f <$> m) Q s ↔ wp F m (fun b t => Q (f b) t) s := by
  rw [← bind_pure_comp, wp_bind]
  exact Iff.rfl

theorem bind_ok {m : Prog ε σ β} {f : β → Prog ε σ α} {r : α × σ} (h : (m >>= f) s = .ok r) :
    ∃ b t, m s = .ok (b, t) ∧ f b t = .ok r := by
  have hbind : (m >>= f) s = m s >>= fun r => f r.1 r.2 := rfl
  rw [hbind] at h
  cases hm : m s with
  | ok r' =>
      rw [hm] at h
      exact ⟨r'.1, r'.2, rfl, h⟩
  | error e =>
      rw [hm] at h
      exact absurd h nofun

theorem run_bind {m : Prog ε σ β} {f : β → Prog ε σ α} {b : β} {t : σ} (h : m s = .ok (b, t)) :
    (m >>= f) s = f b t := by
  have hbind : (m >>= f) s = m s >>= fun r => f r.1 r.2 := rfl
  rw [hbind, h]
  rfl

theorem run_of_any {m : Prog ε σ α} {p : α × σ → Bool} (h : (m s).toOption.any p = true) :
    ∃ a t, m s = .ok (a, t) ∧ p (a, t) = true := by
  cases hm : m s with
  | ok r =>
      rw [hm] at h
      exact ⟨r.1, r.2, rfl, h⟩
  | error e =>
      rw [hm] at h
      exact absurd h Bool.false_ne_true

theorem wp_ite {c : Prop} [Decidable c] {m n : Prog ε σ α} (hm : c → wp F m Q s) (hn : ¬c → wp F n Q s) :
    wp F (if c then m else n) Q s := by
  split
  · rename_i h
    exact hm h
  · rename_i h
    exact hn h

theorem wp_doIf {c : Prop} [Decidable c] {m : Prog ε σ Unit} {Q : Unit → σ → Prop} (hm : c → wp F m Q s)
    (hn : ¬c → Q () s) : wp F (doIf c m) Q s := wp_ite hm hn

theorem wp_mono {m : Prog ε σ α} (h : wp F m P s) (hPQ : ∀ a t, P a t → Q a t) : wp F m Q s := by
  rw [wp] at h ⊢
  split <;> simp_all

theorem wp_and {m : Prog ε σ α} (h : wp G m Q s) (hends : wp F m P s) : wp F m (fun a t => Q a t ∧ P a t) s := by
  rw [wp] at h hends ⊢
  split <;> simp_all

theorem wp_total {m : Prog ε σ α} (h : wp G m Q s) (hends : wp F m P s) : wp F m Q s :=
  wp_mono (wp_and h hends) fun _ _ hQ => hQ.1

theorem wp_ok {m : Prog ε σ α} {a : α} {t : σ} (h : wp F m Q s) (hm : m s = .ok (a, t)) : Q a t := by
  rwa [wp, hm] at h

theorem wp_iff {m : Prog ε σ α} :
    wp F m Q s ↔ (∃ e, m s = .error e ∧ F e) ∨ ∃ a t, m s = .ok (a, t) ∧ Q a t := by
  rw [wp]
  cases hm : m s with
  | ok r =>
      refine ⟨fun h => .inr ⟨r.1, r.2, rfl, h⟩, ?_⟩
      rintro (⟨e, he, -⟩ | ⟨a, t, hok, h⟩)
      · exact absurd he nofun
      · cases hok
        exact h
  | error e =>
      refine ⟨fun h => .inl ⟨e, rfl, h⟩, ?_⟩
      rintro (⟨e', he', h⟩ | ⟨a, t, hok, -⟩)
      · cases he'
        exact h
      · exact absurd hok nofun

theorem wp_short_iff {m : Prog ε σ α} :
    wp Stop.Short m Q s ↔ (∀ e, m s ≠ .error (.error e)) ∧ ∀ a t, m s = .ok (a, t) → Q a t := by
  constructor
  · intro h
    refine ⟨fun e he => ?_, fun a t => wp_ok h⟩
    rwa [wp, he] at h
  · rintro ⟨herror, hok⟩
    rw [wp]
    split
    · rename_i r hr
      exact hok r.1 r.2 hr
    · rename_i e he
      cases e with
      | fuel => exact trivial
      | overrun => exact trivial
      | error e => exact absurd he (herror e)

theorem wp_never_iff {m : Prog ε σ α} : wp Stop.Never m Q s ↔ ∃ a t, m s = .ok (a, t) ∧ Q a t := by
  rw [wp_iff]
  exact ⟨fun h => h.resolve_left fun ⟨_, _, hnever⟩ => hnever, .inr⟩

end Rules

section Loop

variable {s : σ} {Q : α → σ → Prop} {body : β → Prog ε σ (β ⊕ α)}

def Passes (I : β → σ → Prop) (Q : α → σ → Prop) : β ⊕ α → σ → Prop
  | .inl b, t => I b t
  | .inr a, t => Q a t

/-- A loop keeps its invariant, whatever fuel it has. -/
theorem wp_loop {F : Stop ε → Prop} (I : β → σ → Prop) (hbody : ∀ b t, I b t → wp F (body b) (Passes I Q) t)
    (fuel : Nat) (hfuel : F .fuel) {b : β} (hstart : I b s) : wp F (loop body fuel b) Q s := by
  induction fuel generalizing b s with
  | zero => exact hfuel
  | succ fuel ih =>
      rw [loop, wp_bind]
      refine wp_mono (hbody b s hstart) fun r t ht => ?_
      cases r with
      | inl b' => exact ih ht
      | inr a => exact ht

/-- A loop whose passes use up a measure ends, given as much fuel. -/
theorem wp_loop_measure {F : Stop ε → Prop} (I : β → σ → Prop) (μ : β → Nat)
    (hbody : ∀ b t, I b t → wp F (body b) (Passes (fun b' t' => I b' t' ∧ μ b' < μ b) Q) t) {fuel : Nat}
    {b : β} (hstart : I b s) (hfuel : μ b < fuel) : wp F (loop body fuel b) Q s := by
  induction fuel generalizing b s with
  | zero => exact absurd hfuel (Nat.not_lt_zero _)
  | succ fuel ih =>
      rw [loop, wp_bind]
      refine wp_mono (hbody b s hstart) fun r t ht => ?_
      cases r with
      | inl b' => exact ih ht.1 (Nat.lt_of_lt_of_le ht.2 (Nat.le_of_lt_succ hfuel))
      | inr a => exact ht

/-- Where the passes through `body` that start with `b` in `s` come to. -/
inductive Comes (body : β → Prog ε σ (β ⊕ α)) (b : β) (s : σ) : β → σ → Prop
  | start : Comes body b s b s
  | pass {b' b'' : β} {t t' : σ} (h : Comes body b s b' t) (hpass : body b' t = .ok (.inl b'', t')) :
      Comes body b s b'' t'

end Loop

-- a statement about a loop is not to be evaluated
attribute [irreducible] loop

end ECE385.Imperative.Program
