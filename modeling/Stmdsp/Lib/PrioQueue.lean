import Mathlib.Tactic

/-! Lists kept in the order of a priority, highest first, with insertion behind or ahead
of equals. -/

namespace Stmdsp

namespace PrioQueue

variable {α : Type} {prio : α → ℕ} {p : α → Bool} {a b : α} {l : List α}

/-- The value goes behind all from the front that satisfy `p`. -/
def insertPast (p : α → Bool) (a : α) (l : List α) : List α := l.takeWhile p ++ a :: l.dropWhile p

/-- Highest priority first. -/
def Sorted (prio : α → ℕ) (l : List α) : Prop := l.Pairwise fun a b => prio b ≤ prio a

theorem insertPast_cons_of_pos (hb : p b = true) :
    insertPast p a (b :: l) = b :: insertPast p a l := by
  rw [insertPast, List.takeWhile_cons_of_pos hb, List.dropWhile_cons_of_pos hb, List.cons_append]
  rfl

theorem insertPast_cons_of_neg (hb : p b = false) : insertPast p a (b :: l) = a :: b :: l := by
  have hb' : ¬ p b = true := by rw [hb]; exact Bool.false_ne_true
  rw [insertPast, List.takeWhile_cons_of_neg hb', List.dropWhile_cons_of_neg hb', List.nil_append]

theorem perm_insertPast : (insertPast p a l).Perm (a :: l) := by
  have h : (l.takeWhile p ++ a :: l.dropWhile p).Perm (a :: (l.takeWhile p ++ l.dropWhile p)) :=
    List.perm_middle
  rwa [List.takeWhile_append_dropWhile] at h

theorem mem_insertPast : b ∈ insertPast p a l ↔ b = a ∨ b ∈ l := by
  rw [perm_insertPast.mem_iff, List.mem_cons]

theorem nodup_insertPast (hl : l.Nodup) (ha : a ∉ l) : (insertPast p a l).Nodup :=
  perm_insertPast.nodup_iff.mpr (List.nodup_cons.mpr ⟨ha, hl⟩)

namespace Sorted

theorem tail (h : Sorted prio (a :: l)) : Sorted prio l := (List.pairwise_cons.mp h).2

theorem le_head (h : Sorted prio (a :: l)) (hb : b ∈ l) : prio b ≤ prio a :=
  (List.pairwise_cons.mp h).1 b hb

/-- The order is kept if `p` holds of higher priorities only, and fails of lower ones. -/
theorem insertPast (h : Sorted prio l) (hp : ∀ b, p b = true → prio a ≤ prio b)
    (hn : ∀ b, p b = false → prio b ≤ prio a) : Sorted prio (insertPast p a l) := by
  induction l with
  | nil => exact List.pairwise_singleton _ _
  | cons b l ih =>
    cases hb : p b with
    | true =>
      rw [insertPast_cons_of_pos hb]
      refine List.pairwise_cons.mpr ⟨?_, ih h.tail⟩
      intro c hc
      rcases mem_insertPast.mp hc with rfl | hc
      · exact hp b hb
      · exact h.le_head hc
    | false =>
      rw [insertPast_cons_of_neg hb]
      refine List.pairwise_cons.mpr ⟨?_, h⟩
      intro c hc
      rcases List.mem_cons.mp hc with rfl | hc
      · exact hn c hb
      · exact (h.le_head hc).trans (hn b hb)

end Sorted

end PrioQueue

end Stmdsp
