import Mathlib.Tactic

/-! Histories as lists, oldest entry first: an entry of one kind with none of another
kind after it. -/

namespace Stmdsp

variable {α : Type} {P Q R : α → Prop} {l l₁ l₂ : List α} {x : α}

/-- Since some entry with `P` there has been none with `R`. -/
def Since (P R : α → Prop) (l : List α) : Prop :=
  ∃ l₁ x l₂, l = l₁ ++ x :: l₂ ∧ P x ∧ ∀ y ∈ l₂, ¬ R y

theorem since_last (hx : P x) : Since P R (l ++ [x]) :=
  ⟨l, x, [], rfl, hx, by simp⟩

theorem Since.snoc (h : Since P R l) (hx : ¬ R x) : Since P R (l ++ [x]) := by
  obtain ⟨l₁, y, l₂, rfl, hy, hno⟩ := h
  refine ⟨l₁, y, l₂ ++ [x], by simp, hy, List.forall_mem_append.mpr ⟨hno, ?_⟩⟩
  rwa [List.forall_mem_singleton]

theorem not_since_nil : ¬ Since P R ([] : List α) := by
  rintro ⟨l₁, x, l₂, heq, -⟩
  simp at heq

/-- Only a last entry with `R` ends it. -/
theorem since_snoc_iff : Since P R (l ++ [x]) ↔ P x ∨ Since P R l ∧ ¬ R x := by
  constructor
  · rintro ⟨l₁, y, l₂, heq, hy, hno⟩
    rcases List.eq_nil_or_concat l₂ with rfl | ⟨l₃, z, rfl⟩
    · rw [List.append_inj_right' heq rfl |> List.singleton_inj.mp]
      exact .inl hy
    · rw [List.concat_eq_append, ← List.cons_append, ← List.append_assoc] at heq
      obtain ⟨rfl, hz⟩ := List.append_inj' heq rfl
      obtain rfl := List.singleton_inj.mp hz
      rw [List.concat_eq_append, List.forall_mem_append, List.forall_mem_singleton] at hno
      exact .inr ⟨⟨l₁, y, l₃, rfl, hy, hno.1⟩, hno.2⟩
  · rintro (hx | ⟨h, hx⟩)
    · exact since_last hx
    · exact h.snoc hx

theorem Since.mono (h : Since P R l) (hPQ : ∀ x, P x → Q x) : Since Q R l := by
  obtain ⟨l₁, y, l₂, rfl, hy, hno⟩ := h
  exact ⟨l₁, y, l₂, rfl, hPQ y hy, hno⟩

/-- An entry with `R` comes before one with `P`. -/
theorem Since.exists_after (l₂ : List α) (h : Since P R (l₁ ++ x :: l₂)) (hR : R x) (hP : ¬ P x) :
    ∃ y ∈ l₂, P y := by
  obtain ⟨k₁, y, k₂, heq, hy, hno⟩ := h
  rcases List.append_eq_append_iff.mp heq with ⟨m, rfl, hm⟩ | ⟨m, rfl, hm⟩
  · rcases List.cons_eq_append_iff.mp hm with ⟨rfl, hm⟩ | ⟨m', rfl, rfl⟩
    · obtain ⟨rfl, -⟩ := List.cons.inj hm
      exact absurd hy hP
    · exact ⟨y, by simp, hy⟩
  · rcases List.cons_eq_append_iff.mp hm with ⟨rfl, hm⟩ | ⟨m', rfl, rfl⟩
    · obtain ⟨rfl, -⟩ := List.cons.inj hm
      exact absurd hy hP
    · exact absurd hR (hno x (by simp))

end Stmdsp
