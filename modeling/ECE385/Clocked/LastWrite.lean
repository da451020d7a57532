import Mathlib.Logic.Function.Basic

namespace ECE385.Clocked.LastWrite

variable {α β : Type*} [DecidableEq α]

def write (m : α → β) : Option (α × β) → α → β
  | none => m
  | some (a, v) => Function.update m a v

@[simp] theorem write_some (m : α → β) (a : α) (v : β) : write m (some (a, v)) = Function.update m a v := rfl

/-- What the last of the first `n` steps to write the cell `a` wrote there. -/
def lastWrite (w : Nat → Option (α × β)) (a : α) : Nat → Option β
  | 0 => none
  | n + 1 =>
      match w n with
      | none => lastWrite w a n
      | some (b, v) => if b = a then some v else lastWrite w a n

theorem lastWrite_congr {w w' : Nat → Option (α × β)} {n : Nat} (h : ∀ k, k < n → w k = w' k) (a : α) :
    lastWrite w a n = lastWrite w' a n := by
  induction n with
  | zero => rfl
  | succ n ih => rw [lastWrite, lastWrite, h n (Nat.lt_succ_self n), ih fun k hk => h k (Nat.lt_succ_of_lt hk)]

/-- A memory that only the steps write holds the last value written, or else its
first content. -/
theorem read_eq_lastWrite {w : Nat → Option (α × β)} {m : Nat → α → β} {N : Nat}
    (hstep : ∀ n, n < N → m (n + 1) = write (m n) (w n)) (a : α) {n : Nat} (hn : n ≤ N) :
    m n a = (lastWrite w a n).getD (m 0 a) := by
  induction n with
  | zero => rfl
  | succ n ih =>
      rw [hstep n hn, lastWrite]
      cases w n with
      | none => exact ih (Nat.le_of_succ_le hn)
      | some entry =>
          obtain ⟨b, v⟩ := entry
          by_cases hb : b = a
          · simp [hb]
          · simp [hb, Function.update_of_ne (Ne.symm hb), ih (Nat.le_of_succ_le hn)]

def lastOf {ι : Type*} (f : ι → Option β) : List ι → Option β
  | [] => none
  | i :: l => lastOf f l <|> f i

theorem lastOf_cons_getD {ι : Type*} (f : ι → Option β) (i : ι) (l : List ι) (b : β) :
    (lastOf f (i :: l)).getD b = (lastOf f l).getD ((f i).getD b) := by
  show (lastOf f l <|> f i).getD b = _
  cases lastOf f l with
  | none => rfl
  | some v => rfl

theorem lastOf_append {ι : Type*} (f : ι → Option β) (l m : List ι) :
    lastOf f (l ++ m) = (lastOf f m <|> lastOf f l) := by
  induction l with
  | nil =>
      show lastOf f m = (lastOf f m <|> none)
      cases lastOf f m <;> rfl
  | cons i l ih =>
      show (lastOf f (l ++ m) <|> f i) = (lastOf f m <|> (lastOf f l <|> f i))
      rw [ih]
      cases lastOf f m <;> rfl

theorem lastOf_eq_none {ι : Type*} {f : ι → Option β} {l : List ι} (h : ∀ i ∈ l, f i = none) :
    lastOf f l = none := by
  induction l with
  | nil => rfl
  | cons i l ih =>
      show (lastOf f l <|> f i) = none
      rw [ih fun j hj => h j (List.mem_cons_of_mem _ hj), h i List.mem_cons_self]
      rfl

theorem eq_none_of_lastOf {ι : Type*} {f : ι → Option β} {l : List ι} (h : lastOf f l = none) {i : ι} (hi : i ∈ l) :
    f i = none := by
  induction l with
  | nil => exact absurd hi List.not_mem_nil
  | cons j l ih =>
      have hcons : (lastOf f l <|> f j) = none := h
      cases hrest : lastOf f l with
      | none =>
          rw [hrest] at hcons
          rcases List.mem_cons.mp hi with rfl | hi
          · exact hcons
          · exact ih hrest hi
      | some b =>
          rw [hrest] at hcons
          cases hcons

theorem exists_of_lastOf {ι : Type*} {f : ι → Option β} {l : List ι} {b : β} (h : lastOf f l = some b) :
    ∃ i ∈ l, f i = some b := by
  by_contra hnone
  induction l with
  | nil => cases h
  | cons i l ih =>
      have hcons : (lastOf f l <|> f i) = some b := h
      cases hrest : lastOf f l with
      | none =>
          rw [hrest] at hcons
          exact hnone ⟨i, List.mem_cons_self, hcons⟩
      | some c =>
          rw [hrest] at hcons
          cases hcons
          exact ih hrest fun ⟨j, hj, hf⟩ => hnone ⟨j, List.mem_cons_of_mem _ hj, hf⟩

end ECE385.Clocked.LastWrite
