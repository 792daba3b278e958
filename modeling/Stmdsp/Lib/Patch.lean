import Mathlib.Tactic

/-! Partial overwrites of a function, one after another, and when their order does not
matter. -/

namespace Stmdsp

/-- The new values, at the places that get one. -/
abbrev Patch (α β : Type) := α → Option β

namespace Patch

variable {α β : Type} {p q : Patch α β} {ps qs : List (Patch α β)} {f : α → β} {a : α} {b : β}

def apply (p : Patch α β) (f : α → β) : α → β := fun a => (p a).getD (f a)

theorem apply_of_none (h : p a = none) : p.apply f a = f a := by rw [apply, h, Option.getD_none]

theorem apply_of_some (h : p a = some b) : p.apply f a = b := by rw [apply, h, Option.getD_some]

/-- No place gets a value from both. -/
def Apart (p q : Patch α β) : Prop := ∀ a, p a = none ∨ q a = none

instance apart_symm : Std.Symm (Apart (α := α) (β := β)) where
  symm _ _ h a := (h a).symm

theorem Apart.comm (h : p.Apart q) (f : α → β) : p.apply (q.apply f) = q.apply (p.apply f) := by
  funext a
  rcases h a with hp | hq
  · simp only [apply, hp, Option.getD_none]
  · simp only [apply, hq, Option.getD_none]

/-- The patches of a list, its head first. -/
def applyAll (f : α → β) (ps : List (Patch α β)) : α → β := ps.foldl (fun f p => p.apply f) f

theorem applyAll_cons : applyAll f (p :: ps) = applyAll (p.apply f) ps := rfl

theorem applyAll_outside (h : ∀ p ∈ ps, p a = none) : applyAll f ps a = f a := by
  induction ps generalizing f with
  | nil => rfl
  | cons p ps ih =>
    rw [List.forall_mem_cons] at h
    rw [applyAll_cons, ih h.2, apply_of_none h.1]

/-- Only what was there before matters, place by place. -/
theorem applyAll_congr {g : α → β} (h : f a = g a) : applyAll f ps a = applyAll g ps a := by
  induction ps generalizing f g with
  | nil => exact h
  | cons p ps ih => exact ih (congrArg (p a).getD h)

/-- A place gets its old value whatever that was exactly if no patch has one for it. -/
theorem applyAll_kept_iff [Nontrivial β] :
    (∀ f : α → β, applyAll f ps a = f a) ↔ ∀ p ∈ ps, p a = none := by
  constructor
  · intro h
    induction ps with
    | nil => simp
    | cons p ps ih =>
      cases hp : p a with
      | none =>
        refine List.forall_mem_cons.mpr ⟨hp, ih fun f => ?_⟩
        rw [← h f, applyAll_cons]
        exact applyAll_congr (apply_of_none hp).symm
      | some b =>
        -- All functions end as the one does that has `b` there from the start.
        obtain ⟨c, hc⟩ := exists_ne b
        have hsame : applyAll (fun _ => c) (p :: ps) a = applyAll (fun _ => b) (p :: ps) a := by
          rw [applyAll_cons, applyAll_cons]
          exact applyAll_congr (by rw [apply_of_some hp, apply_of_some hp])
        rw [h, h] at hsame
        exact absurd hsame hc
  · exact fun h f => applyAll_outside h

/-- What one of several patches apart from each other sets is what is there in the end. -/
theorem applyAll_inside (hapart : ps.Pairwise Apart) (hp : p ∈ ps) (h : p a = some b) :
    applyAll f ps a = b := by
  induction ps generalizing f with
  | nil => simp at hp
  | cons q ps ih =>
    rw [List.pairwise_cons] at hapart
    rw [applyAll_cons]
    rcases List.mem_cons.mp hp with rfl | hp
    · rw [applyAll_outside fun q hq => (hapart.1 q hq a).resolve_left (by simp [h]), apply_of_some h]
    · exact ih hapart.2 hp

theorem applyAll_perm (h : ps.Perm qs) (hapart : ps.Pairwise Apart) :
    applyAll f ps = applyAll f qs := by
  apply h.foldl_eq'
  intro p hp q hq f
  by_cases heq : q = p
  · rw [heq]
  · exact (hapart.forall hq hp heq).comm f

end Patch

end Stmdsp
