import Stmdsp.Lib.Deadlines

/-! Delta lists: every entry holds the time that passes between the one before it and
itself, so that it stands for the sum of the times up to it. -/

namespace Stmdsp

open Deadlines

namespace DeltaList

variable {α : Type} {t n delta : ℕ} {a : α} {l : List (ℕ × α)}

/-- The times of the entries, counted from `t`. -/
def times : ℕ → List (ℕ × α) → List (ℕ × α)
  | _, [] => []
  | t, (d, a) :: l => (t + d, a) :: times (t + d) l

/-- An entry at `delta` goes before those at the same time. -/
def insert (delta : ℕ) (a : α) : List (ℕ × α) → List (ℕ × α)
  | [] => [(delta, a)]
  | (d, b) :: l =>
    if d < delta then (d, b) :: insert (delta - d) a l else (delta, a) :: (d - delta, b) :: l

/-- The entries of the next `n` units, what of the `n` is behind the last of them, and the
other entries. -/
def expire : ℕ → List (ℕ × α) → List α × ℕ × List (ℕ × α)
  | n, [] => ([], n, [])
  | n, (d, a) :: l =>
    if d ≤ n then (a :: (expire (n - d) l).1, (expire (n - d) l).2) else ([], n, (d, a) :: l)

/-- Counted from `n` units later. -/
def rebase (n : ℕ) : List (ℕ × α) → List (ℕ × α)
  | [] => []
  | (d, a) :: l => (d - n, a) :: l

theorem le_times (x : ℕ × α) (hx : x ∈ times t l) : t ≤ x.1 := by
  induction l generalizing t with
  | nil => cases hx
  | cons e l ih =>
    rcases List.mem_cons.mp hx with rfl | hx
    · exact Nat.le_add_right _ _
    · exact (Nat.le_add_right t e.1).trans (ih hx)

theorem times_sorted : Sorted (times t l) := by
  induction l generalizing t with
  | nil => exact List.Pairwise.nil
  | cons e l ih => exact List.pairwise_cons.mpr ⟨fun x hx => le_times x hx, ih⟩

@[simp] theorem times_map_snd : (times t l).map Prod.snd = l.map Prod.snd := by
  induction l generalizing t with
  | nil => rfl
  | cons e l ih => rw [times, List.map_cons, List.map_cons, ih]

@[simp] theorem times_eq_nil : times t l = [] ↔ l = [] := by
  cases l <;> simp [times]

theorem times_rebase (h : ∀ e ∈ l.head?, n ≤ e.1) : times (t + n) (rebase n l) = times t l := by
  cases l with
  | nil => rfl
  | cons e l =>
    have hle : n ≤ e.1 := h e rfl
    have hsum : t + n + (e.1 - n) = t + e.1 := by omega
    rw [rebase, times, times, hsum]

/-- In the order of times the entry goes behind all earlier ones. -/
theorem times_insert : times t (insert delta a l) =
    PrioQueue.insertPast (earlier (t + delta)) (t + delta, a) (times t l) := by
  induction l generalizing t delta with
  | nil => rfl
  | cons e l ih =>
    obtain ⟨d, b⟩ := e
    rw [insert, times]
    by_cases h : d < delta
    · have hsum : t + d + (delta - d) = t + delta := by omega
      have hlt : earlier (t + delta) (t + d, b) = true := decide_eq_true (by simpa using h)
      rw [if_pos h, times, ih, hsum, PrioQueue.insertPast_cons_of_pos hlt]
    · have hsum : t + delta + (d - delta) = t + d := by omega
      have hge : earlier (t + delta) (t + d, b) = false := decide_eq_false (by simpa using h)
      rw [if_neg h, times, times, hsum, PrioQueue.insertPast_cons_of_neg hge]

/-- The entries that expire are those of the times up to `t + n`; the others keep theirs. -/
theorem expire_spec : (expire n l).2.1 ≤ n ∧
    (expire n l).1 = ((times t l).takeWhile (isDue (t + n))).map Prod.snd ∧
    times (t + (n - (expire n l).2.1)) (expire n l).2.2 = (times t l).dropWhile (isDue (t + n)) := by
  induction l generalizing t n with
  | nil => exact ⟨le_rfl, rfl, rfl⟩
  | cons e l ih =>
    obtain ⟨d, b⟩ := e
    rw [expire, times, List.takeWhile_cons, List.dropWhile_cons]
    by_cases h : d ≤ n
    · have hle : isDue (t + n) (t + d, b) = true := decide_eq_true (by simpa using h)
      have hn : t + d + (n - d) = t + n := by omega
      obtain ⟨hrest, hexp, hleft⟩ := ih (t := t + d) (n := n - d)
      rw [hn] at hexp hleft
      have hsum : t + d + (n - d - (expire (n - d) l).2.1) =
          t + (n - (expire (n - d) l).2.1) := by omega
      rw [if_pos h, if_pos hle, if_pos hle, List.map_cons]
      refine ⟨hrest.trans (Nat.sub_le n d), by rw [hexp], ?_⟩
      rw [← hsum]
      exact hleft
    · have hgt : ¬ isDue (t + n) (t + d, b) = true := by simpa [isDue] using h
      rw [if_neg h, if_neg hgt, if_neg hgt]
      exact ⟨le_rfl, rfl, by rw [Nat.sub_self, Nat.add_zero]; rfl⟩

/-- What is left begins behind the interval. -/
theorem expire_head : ∀ e ∈ (expire n l).2.2.head?, (expire n l).2.1 < e.1 := by
  induction l generalizing n with
  | nil => intro e he; cases he
  | cons e l ih =>
    obtain ⟨d, b⟩ := e
    rw [expire]
    by_cases h : d ≤ n
    · rw [if_pos h]
      exact ih
    · rw [if_neg h]
      rintro _ ⟨⟩
      exact Nat.lt_of_not_le h

end DeltaList

end Stmdsp
