import Mathlib.Tactic

/-! Memory as a function of the address: the values of a block, and copying a list
over one. -/

namespace Stmdsp

variable {α : Type}

/-- The `n` values from address `a` on. -/
def slice (mem : ℕ → α) (a n : ℕ) : List α := (List.range n).map fun i => mem (a + i)

/-- The memory after `l` has been copied to address `a`. -/
def splice (mem : ℕ → α) (a : ℕ) (l : List α) : ℕ → α :=
  fun i => if a ≤ i then l[i - a]?.getD (mem i) else mem i

variable {mem mem' : ℕ → α} {a b n m : ℕ} {l : List α}

@[simp] theorem slice_length : (slice mem a n).length = n := by simp [slice]

@[simp] theorem slice_zero : slice mem a 0 = [] := rfl

theorem slice_congr (h : ∀ i < n, mem (a + i) = mem' (a + i)) : slice mem a n = slice mem' a n := by
  apply List.map_congr_left
  intro i hi
  exact h i (List.mem_range.mp hi)

theorem slice_add : slice mem a (n + m) = slice mem a n ++ slice mem (a + n) m := by
  rw [slice, List.range_add, List.map_append, List.map_map]
  congr 1
  apply List.map_congr_left
  intro i _
  rw [Function.comp_apply, Nat.add_assoc]

theorem slice_drop : (slice mem a n).drop m = slice mem (a + m) (n - m) := by
  rcases Nat.le_total m n with h | h
  · obtain ⟨k, rfl⟩ := Nat.exists_eq_add_of_le h
    rw [slice_add, Nat.add_sub_cancel_left, List.drop_left' slice_length]
  · rw [List.drop_eq_nil_of_le (by simpa), Nat.sub_eq_zero_of_le h, slice_zero]

theorem splice_of_lt (h : b < a) : splice mem a l b = mem b := if_neg (by omega)

theorem splice_of_ge (h : a + l.length ≤ b) : splice mem a l b = mem b := by
  rw [splice, if_pos (by omega), List.getElem?_eq_none (by omega), Option.getD_none]

theorem splice_at {i : ℕ} (h : i < l.length) : splice mem a l (a + i) = l[i] := by
  rw [splice, if_pos (by omega), Nat.add_sub_cancel_left, List.getElem?_eq_getElem h,
    Option.getD_some]

/-- What was copied is what is there. -/
theorem slice_splice : slice (splice mem a l) a l.length = l := by
  apply List.ext_getElem
  · simp
  · intro i hi hl
    simp only [slice, List.getElem_map, List.getElem_range]
    exact splice_at hl

/-- A block that the copy does not reach keeps its values. -/
theorem slice_splice_apart (h : b + n ≤ a ∨ a + l.length ≤ b) :
    slice (splice mem a l) b n = slice mem b n := by
  apply slice_congr
  intro i hi
  rcases h with h | h
  · exact splice_of_lt (by omega)
  · exact splice_of_ge (by omega)

/-- Copying to the end of a block makes it longer. -/
theorem slice_splice_append :
    slice (splice mem (a + n) l) a (n + l.length) = slice mem a n ++ l := by
  rw [slice_add, slice_splice_apart (.inl le_rfl), slice_splice]

end Stmdsp
