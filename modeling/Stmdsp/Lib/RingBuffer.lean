import Mathlib.Tactic

/-! Circular buffers: `cnt` of the `n` slots are in use, from the slot `rd` on, and
the slot `wr` is the next to be filled. What is queued is a list, oldest first. -/

namespace Stmdsp

namespace RingBuffer

/-- One slot further, from the last one back to the first. -/
def next (n i : ℕ) : ℕ := if n ≤ i + 1 then 0 else i + 1

/-- Both indices are slots, and the slots between them are the ones in use. -/
structure Ok (n rd wr cnt : ℕ) : Prop where
  rd_lt : rd < n
  cnt_le : cnt ≤ n
  wr_eq : wr = (rd + cnt) % n

variable {α β : Type} {n rd wr cnt i : ℕ} {slot slot' : ℕ → α}

/-- The values of the slots in use. -/
def contents (slot : ℕ → α) (n rd cnt : ℕ) : List α :=
  (List.range cnt).map fun k => slot ((rd + k) % n)

theorem next_eq_mod (h : i < n) : next n i = (i + 1) % n := by
  rw [next]
  split
  · rw [show i + 1 = n by omega, Nat.mod_self]
  · rw [Nat.mod_eq_of_lt (by omega)]

theorem next_lt (h : i < n) : next n i < n := by
  rw [next_eq_mod h]
  exact Nat.mod_lt _ (by omega)

namespace Ok

theorem empty (hn : 0 < n) : Ok n 0 0 0 := ⟨hn, Nat.zero_le n, (Nat.zero_mod n).symm⟩

theorem wr_lt (h : Ok n rd wr cnt) : wr < n := by
  rw [h.wr_eq]
  exact Nat.mod_lt _ (by have := h.rd_lt; omega)

theorem push (h : Ok n rd wr cnt) (hfree : cnt < n) : Ok n rd (next n wr) (cnt + 1) := by
  refine ⟨h.rd_lt, hfree, ?_⟩
  rw [next_eq_mod h.wr_lt, h.wr_eq, Nat.mod_add_mod, Nat.add_assoc]

theorem pop (h : Ok n rd wr (cnt + 1)) : Ok n (next n rd) wr cnt := by
  refine ⟨next_lt h.rd_lt, by have := h.cnt_le; omega, ?_⟩
  rw [next_eq_mod h.rd_lt, h.wr_eq, Nat.mod_add_mod]
  congr 1
  omega

/-- The indices meet when the ring is empty and when it is full. -/
theorem wr_eq_rd_iff (h : Ok n rd wr cnt) : wr = rd ↔ cnt = 0 ∨ cnt = n := by
  have hr := h.rd_lt
  have hc := h.cnt_le
  rw [h.wr_eq]
  constructor
  · intro heq
    by_contra hne
    rcases Nat.lt_or_ge (rd + cnt) n with hlt | hge
    · rw [Nat.mod_eq_of_lt hlt] at heq
      omega
    · rw [Nat.mod_eq_sub_mod hge, Nat.mod_eq_of_lt (by omega)] at heq
      omega
  · rintro (rfl | rfl)
    · rw [Nat.add_zero, Nat.mod_eq_of_lt hr]
    · rw [Nat.add_mod_right, Nat.mod_eq_of_lt hr]

/-- The slot to be filled is none of those in use. -/
theorem wr_ne (h : Ok n rd wr cnt) (hfree : cnt < n) {k : ℕ} (hk : k < cnt) :
    (rd + k) % n ≠ wr := by
  have hr := h.rd_lt
  rw [h.wr_eq]
  intro heq
  have hmod : ∀ j, j ≤ cnt → (rd + j) % n = if rd + j < n then rd + j else rd + j - n := by
    intro j hj
    split
    · exact Nat.mod_eq_of_lt (by assumption)
    · rw [Nat.mod_eq_sub_mod (by omega), Nat.mod_eq_of_lt (by omega)]
  rw [hmod k (by omega), hmod cnt (by omega)] at heq
  split at heq <;> split at heq <;> omega

end Ok

@[simp] theorem contents_zero : contents slot n rd 0 = [] := rfl

@[simp] theorem contents_length : (contents slot n rd cnt).length = cnt := by simp [contents]

theorem contents_congr (h : ∀ k < cnt, slot ((rd + k) % n) = slot' ((rd + k) % n)) :
    contents slot n rd cnt = contents slot' n rd cnt := by
  apply List.map_congr_left
  intro k hk
  exact h k (List.mem_range.mp hk)

/-- Filling the next slot queues its value behind the others. -/
theorem contents_push (h : Ok n rd wr cnt) (hfree : cnt < n)
    (hold : ∀ i, i ≠ wr → slot' i = slot i) :
    contents slot' n rd (cnt + 1) = contents slot n rd cnt ++ [slot' wr] := by
  rw [contents, List.range_succ, List.map_append, List.map_singleton, ← h.wr_eq]
  congr 1
  apply contents_congr
  intro k hk
  exact hold _ (h.wr_ne hfree hk)

/-- The oldest value, and what is left behind it. -/
theorem contents_pop (hrd : rd < n) :
    contents slot n rd (cnt + 1) = slot rd :: contents slot n (next n rd) cnt := by
  rw [contents, List.range_succ_eq_map, List.map_cons, List.map_map, Nat.add_zero,
    Nat.mod_eq_of_lt hrd, contents, next_eq_mod hrd]
  congr 1
  apply List.map_congr_left
  intro k _
  rw [Function.comp_apply, Nat.mod_add_mod]
  congr 2
  omega

/-- Writing to a slot that is not in use changes nothing that is queued. -/
theorem contents_write (h : Ok n rd wr cnt) (hfree : cnt < n)
    (hold : ∀ i, i ≠ wr → slot' i = slot i) :
    contents slot' n rd cnt = contents slot n rd cnt := by
  apply contents_congr
  intro k hk
  exact hold _ (h.wr_ne hfree hk)

/-! ### Slots of more than one address: pointers are multiples of the stride -/

/-- The pointer one slot further, wrapped at the end of the last slot. -/
def nextAt (stride n p : ℕ) : ℕ := if stride * n ≤ p + stride then 0 else p + stride

structure Strided (stride n rd wr cnt : ℕ) : Prop where
  pos : 0 < stride
  exists_ok : ∃ i j, rd = stride * i ∧ wr = stride * j ∧ Ok n i j cnt

/-- The values of the slots in use, by the pointers to them. -/
def queued (slot : ℕ → α) (stride n rd cnt : ℕ) : List α :=
  contents (fun i => slot (stride * i)) n (rd / stride) cnt

section Strided

variable {stride : ℕ}

theorem nextAt_mul (hpos : 0 < stride) : nextAt stride n (stride * i) = stride * next n i := by
  have hle : stride * n ≤ stride * i + stride ↔ n ≤ i + 1 := by
    rw [← Nat.mul_succ, Nat.mul_le_mul_left_iff hpos]
  rw [nextAt, next]
  by_cases h : n ≤ i + 1
  · rw [if_pos (hle.mpr h), if_pos h, Nat.mul_zero]
  · rw [if_neg (hle.not.mpr h), if_neg h, Nat.mul_succ]

theorem queued_mul (hpos : 0 < stride) :
    queued slot stride n (stride * i) cnt = contents (fun i => slot (stride * i)) n i cnt := by
  rw [queued, Nat.mul_div_cancel_left i hpos]

@[simp] theorem queued_length : (queued slot stride n rd cnt).length = cnt := contents_length

@[simp] theorem queued_zero : queued slot stride n rd 0 = [] := rfl

namespace Strided

theorem empty (hpos : 0 < stride) (hn : 0 < n) : Strided stride n 0 0 0 :=
  ⟨hpos, 0, 0, rfl, rfl, .empty hn⟩

theorem cnt_le (h : Strided stride n rd wr cnt) : cnt ≤ n := by
  obtain ⟨-, i, j, -, -, hok⟩ := h
  exact hok.cnt_le

theorem push (h : Strided stride n rd wr cnt) (hfree : cnt < n) :
    Strided stride n rd (nextAt stride n wr) (cnt + 1) := by
  obtain ⟨hpos, i, j, rfl, rfl, hok⟩ := h
  exact ⟨hpos, i, next n j, rfl, nextAt_mul hpos, hok.push hfree⟩

theorem pop (h : Strided stride n rd wr (cnt + 1)) :
    Strided stride n (nextAt stride n rd) wr cnt := by
  obtain ⟨hpos, i, j, rfl, rfl, hok⟩ := h
  exact ⟨hpos, next n i, j, nextAt_mul hpos, rfl, hok.pop⟩

theorem wr_eq_rd_iff (h : Strided stride n rd wr cnt) : wr = rd ↔ cnt = 0 ∨ cnt = n := by
  obtain ⟨hpos, i, j, rfl, rfl, hok⟩ := h
  rw [Nat.mul_left_cancel_iff hpos, hok.wr_eq_rd_iff]

/-- Two slots share no address. -/
theorem apart (h : Strided stride n rd wr cnt) (hne : stride * i ≠ wr) :
    stride * i + stride ≤ wr ∨ wr + stride ≤ stride * i := by
  obtain ⟨hpos, -, j, -, rfl, -⟩ := h
  rcases Nat.lt_or_gt_of_ne fun heq => hne (congrArg (stride * ·) heq) with hlt | hlt
  · exact .inl (by rw [← Nat.mul_succ]; exact Nat.mul_le_mul_left stride hlt)
  · exact .inr (by rw [← Nat.mul_succ]; exact Nat.mul_le_mul_left stride hlt)

end Strided

theorem queued_push (h : Strided stride n rd wr cnt) (hfree : cnt < n)
    (hold : ∀ i, stride * i ≠ wr → slot' (stride * i) = slot (stride * i)) :
    queued slot' stride n rd (cnt + 1) = queued slot stride n rd cnt ++ [slot' wr] := by
  obtain ⟨hpos, i, j, rfl, rfl, hok⟩ := h
  rw [queued_mul hpos, queued_mul hpos]
  apply contents_push hok hfree
  intro k hk
  exact hold k fun heq => hk (Nat.eq_of_mul_eq_mul_left hpos heq)

theorem queued_pop (h : Strided stride n rd wr (cnt + 1)) :
    queued slot stride n rd (cnt + 1) = slot rd :: queued slot stride n (nextAt stride n rd) cnt := by
  obtain ⟨hpos, i, j, rfl, rfl, hok⟩ := h
  rw [queued_mul hpos, nextAt_mul hpos, queued_mul hpos, contents_pop hok.rd_lt]

theorem queued_write (h : Strided stride n rd wr cnt) (hfree : cnt < n)
    (hold : ∀ i, stride * i ≠ wr → slot' (stride * i) = slot (stride * i)) :
    queued slot' stride n rd cnt = queued slot stride n rd cnt := by
  obtain ⟨hpos, i, j, rfl, rfl, hok⟩ := h
  rw [queued_mul hpos, queued_mul hpos]
  apply contents_write hok hfree
  intro k hk
  exact hold k fun heq => hk (Nat.eq_of_mul_eq_mul_left hpos heq)

end Strided

end RingBuffer

end Stmdsp
