import Mathlib.Tactic

/-! A list cut into pieces of one length, the last of which may be shorter. -/

namespace Stmdsp

variable {α : Type} {k : ℕ} {l : List α}

/-- `k` elements at a time while more than `k` are left, and then the rest. -/
def chunks (k : ℕ) (l : List α) : List (List α) :=
  if 0 < k ∧ k < l.length then l.take k :: chunks k (l.drop k) else [l]
termination_by l.length
decreasing_by simp; omega

theorem chunks_of_lt (hk : 0 < k) (hl : k < l.length) :
    chunks k l = l.take k :: chunks k (l.drop k) := by
  rw [chunks, if_pos ⟨hk, hl⟩]

theorem chunks_of_le (hl : l.length ≤ k) : chunks k l = [l] := by
  rw [chunks, if_neg (by omega)]

theorem chunks_ne_nil : chunks k l ≠ [] := by
  rw [chunks]
  split <;> simp

theorem chunks_flatten : (chunks k l).flatten = l := by
  induction l using chunks.induct (k := k) with
  | case1 l h ih => rw [chunks_of_lt h.1 h.2, List.flatten_cons, ih, List.take_append_drop]
  | case2 l h => rw [chunks, if_neg h]; simp

theorem chunks_length (hk : 0 < k) (hl : 0 < l.length) :
    (chunks k l).length = (l.length + k - 1) / k := by
  induction l using chunks.induct (k := k) with
  | case1 l h ih =>
    rw [chunks_of_lt h.1 h.2, List.length_cons, ih (by simp; omega), List.length_drop,
      show l.length + k - 1 = (l.length - k + k - 1) + k by omega, Nat.add_div_right _ hk]
  | case2 l h =>
    rw [chunks, if_neg h, List.length_singleton,
      show l.length + k - 1 = (l.length - 1) + k by omega, Nat.add_div_right _ hk,
      Nat.div_eq_of_lt (by omega)]

/-- All pieces but the last are full. -/
theorem chunks_full {c : List α} (hc : c ∈ (chunks k l).dropLast) : c.length = k := by
  induction l using chunks.induct (k := k) with
  | case1 l h ih =>
    rw [chunks_of_lt h.1 h.2, List.dropLast_cons_of_ne_nil chunks_ne_nil, List.mem_cons] at hc
    rcases hc with rfl | hc
    · simp only [List.length_take]; omega
    · exact ih hc
  | case2 l h =>
    rw [chunks, if_neg h] at hc
    simp at hc

/-- No piece is empty or too long. -/
theorem chunks_bounds {c : List α} (hk : 0 < k) (hl : 0 < l.length) (hc : c ∈ chunks k l) :
    0 < c.length ∧ c.length ≤ k := by
  induction l using chunks.induct (k := k) with
  | case1 l h ih =>
    rw [chunks_of_lt h.1 h.2, List.mem_cons] at hc
    rcases hc with rfl | hc
    · simp only [List.length_take]; omega
    · exact ih (by simp; omega) hc
  | case2 l h =>
    rw [chunks, if_neg h, List.mem_singleton] at hc
    subst hc
    omega

end Stmdsp
