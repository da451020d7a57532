import Mathlib.Data.List.Basic

namespace ECE385.Imperative.Chunks

variable {α : Type*}

/-- Piece `k` of a message that is cut into pieces of `m`. What comes behind its
end is empty. -/
def chunk (m : Nat) (d : List α) (k : Nat) : List α := (d.drop (k * m)).take m

theorem length_chunk (m : Nat) (d : List α) (k : Nat) : (chunk m d k).length = min m (d.length - k * m) := by
  rw [chunk, List.length_take, List.length_drop]

theorem flatten_chunks (m : Nat) (d : List α) (n : Nat) :
    ((List.range n).map (chunk m d)).flatten = d.take (n * m) := by
  induction n with
  | zero => rw [Nat.zero_mul, List.take_zero]; rfl
  | succ n ih =>
      rw [List.range_succ, List.map_append, List.flatten_append, ih, Nat.succ_mul, List.take_add]
      exact congrArg _ (List.append_nil _)

/-- Full pieces, with less than `n` elements at any time: a receiver that wants
`n` elements has no reason to stop. -/
inductive Ongoing (n m : Nat) : List (List α) → Prop
  | nil : Ongoing n m []
  | snoc (ps : List (List α)) (p : List α) (h : Ongoing n m ps) (hfull : m ≤ p.length)
      (hmore : (ps ++ [p]).flatten.length < n) : Ongoing n m (ps ++ [p])

theorem Ongoing.last {n m : Nat} {ps : List (List α)} {p : List α} (h : Ongoing n m (ps ++ [p])) :
    m ≤ p.length ∧ (ps ++ [p]).flatten.length < n := by
  generalize hqs : ps ++ [p] = qs at h
  cases h with
  | nil => exact absurd hqs (List.append_ne_nil_of_right_ne_nil ps (List.cons_ne_nil p []))
  | snoc qs q h hfull hmore =>
      obtain ⟨rfl, hpq⟩ := List.append_inj' hqs rfl
      rw [List.singleton_inj.mp hpq]
      exact ⟨hfull, hmore⟩

/-- The receiver stops with a short piece, or when it has what it wants. -/
structure Stopped (n m : Nat) (ps : List (List α)) (p : List α) : Prop where
  before : Ongoing n m ps
  last : p.length < m ∨ n ≤ (ps ++ [p]).flatten.length

variable {n m : Nat} {ps : List (List α)} {p : List α} {d : List α}

/-- Pieces of the message, in order, from the first on. -/
def Pieces (m : Nat) (d : List α) (ps : List (List α)) : Prop := ps = (List.range ps.length).map (chunk m d)

theorem Pieces.flatten (h : Pieces m d ps) : ps.flatten = d.take (ps.length * m) := by
  rw [h, flatten_chunks, List.length_map, List.length_range]

theorem Pieces.init (h : Pieces m d (ps ++ [p])) : Pieces m d ps ∧ p = chunk m d ps.length := by
  rw [Pieces, List.length_append, List.length_singleton, List.range_succ, List.map_append] at h
  obtain ⟨hps, hp⟩ := List.append_inj h (by rw [List.length_map, List.length_range])
  exact ⟨hps, List.singleton_inj.mp hp⟩

theorem Ongoing.bound (h : Ongoing n m ps) (hpieces : Pieces m d ps) :
    ps = [] ∨ (ps.length * m ≤ d.length ∧ ps.length * m < n) := by
  cases h with
  | nil => exact .inl rfl
  | snoc ps p h hfull hmore =>
      obtain ⟨-, hp⟩ := hpieces.init
      rw [hp, length_chunk] at hfull
      have hle : (ps ++ [p]).length * m ≤ d.length ∨ m = 0 := by
        rw [List.length_append, List.length_singleton, Nat.succ_mul]
        omega
      rcases hle with hle | rfl
      · rw [hpieces.flatten, List.length_take, Nat.min_eq_left hle] at hmore
        exact .inr ⟨hle, hmore⟩
      · exact .inr ⟨Nat.zero_le _, Nat.lt_of_le_of_lt (Nat.zero_le _) hmore⟩

/-- The receiver gets the message, or as many whole pieces of it as `n` elements take. -/
theorem Stopped.flatten (h : Stopped n m ps p) (hm : 0 < m) (hn : 0 < n) (hpieces : Pieces m d (ps ++ [p])) :
    (ps ++ [p]).flatten = d.take ((n + m - 1) / m * m) := by
  obtain ⟨hps, hp⟩ := hpieces.init
  have hbound : ps.length * m < n := by
    rcases h.before.bound hps with rfl | ⟨-, hlt⟩
    · simpa using hn
    · exact hlt
  have hlength : (ps ++ [p]).length = ps.length + 1 := by rw [List.length_append, List.length_singleton]
  have hcount : ps.length + 1 ≤ (n + m - 1) / m := by
    rw [Nat.le_div_iff_mul_le hm, Nat.succ_mul]
    omega
  have hceil : (ps.length + 1) * m ≤ (n + m - 1) / m * m := Nat.mul_le_mul_right m hcount
  have hlast := h.last
  rw [hpieces.flatten, hlength, List.length_take, hp, length_chunk] at *
  by_cases hshort : d.length ≤ (ps.length + 1) * m
  · rw [List.take_of_length_le hshort, List.take_of_length_le (Nat.le_trans hshort hceil)]
  · rw [Nat.succ_mul] at hshort hlast ⊢
    have hle : (n + m - 1) / m ≤ ps.length + 1 := by
      refine Nat.le_of_lt_succ ((Nat.div_lt_iff_lt_mul hm).mpr ?_)
      rw [Nat.succ_mul, Nat.succ_mul]
      omega
    rw [← Nat.succ_mul, Nat.le_antisymm hle hcount]

end ECE385.Imperative.Chunks
