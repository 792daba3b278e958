import Mathlib.Tactic

/-! Loops whose body runs before their test, with the number of their iterations. -/

namespace Stmdsp

variable {σ : Type}

/-- `do body while (test)` ends in `s'` after `n` iterations from `s`. -/
inductive DoWhile (body : σ → σ) (test : σ → Bool) : ℕ → σ → σ → Prop where
  | last {s : σ} : test (body s) = false → DoWhile body test 1 s (body s)
  | more {n : ℕ} {s s' : σ} : test (body s) = true → DoWhile body test n (body s) s' →
      DoWhile body test (n + 1) s s'

namespace DoWhile

variable {body : σ → σ} {test : σ → Bool} {n : ℕ} {s s' : σ}

/-- What holds after `k` iterations, and with `m` of them also with `m + 1`. -/
theorem invariant_from {I : ℕ → σ → Prop} (h : DoWhile body test n s s') (k : ℕ) (h₀ : I k s)
    (hstep : ∀ m t, m < k + n → I m t → I (m + 1) (body t)) : I (k + n) s' := by
  induction h generalizing k with
  | last _ => exact hstep k _ (by omega) h₀
  | @more n s s' _ _ ih =>
    rw [show k + (n + 1) = k + 1 + n by omega]
    exact ih (k + 1) (hstep k s (by omega) h₀) fun m t hm => hstep m t (by omega)

theorem invariant {I : ℕ → σ → Prop} (h : DoWhile body test n s s') (h₀ : I 0 s)
    (hstep : ∀ m t, m < n → I m t → I (m + 1) (body t)) : I n s' := by
  have hfrom := h.invariant_from 0 h₀ fun m t hm => hstep m t (by omega)
  rwa [Nat.zero_add] at hfrom

end DoWhile

end Stmdsp
