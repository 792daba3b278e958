import Mathlib.Data.List.TakeWhile
import Stmdsp.Lib.PrioQueue

/-! Timers as a clock and a list of deadlines, the earliest first. -/

namespace Stmdsp

structure Deadlines (α : Type) where
  now : ℕ
  pending : List (ℕ × α)

namespace Deadlines

variable {α : Type} {t : ℕ} {a : α} {x : ℕ × α} {l : List (ℕ × α)} {d : Deadlines α}

def earlier (t : ℕ) (x : ℕ × α) : Bool := decide (x.1 < t)

def isDue (t : ℕ) (x : ℕ × α) : Bool := decide (x.1 ≤ t)

def init : Deadlines α := ⟨0, []⟩

def count (d : Deadlines α) : Deadlines α := { d with now := d.now + 1 }

/-- Ahead of those with the same deadline. -/
def add (d : Deadlines α) (t : ℕ) (a : α) : Deadlines α :=
  { d with pending := PrioQueue.insertPast (earlier t) (t, a) d.pending }

def due (d : Deadlines α) : List α := (d.pending.takeWhile (isDue d.now)).map Prod.snd

def rest (d : Deadlines α) : Deadlines α :=
  { d with pending := d.pending.dropWhile (isDue d.now) }

/-- Earliest first. -/
def Sorted (l : List (ℕ × α)) : Prop := l.Pairwise fun x y => x.1 ≤ y.1

theorem mem_add : x ∈ (d.add t a).pending ↔ x = (t, a) ∨ x ∈ d.pending :=
  PrioQueue.mem_insertPast

theorem add_perm : ((d.add t a).pending.map Prod.snd).Perm (a :: d.pending.map Prod.snd) :=
  PrioQueue.perm_insertPast.map Prod.snd

/-- Every timer is due or left. -/
theorem due_append_rest : d.due ++ d.rest.pending.map Prod.snd = d.pending.map Prod.snd := by
  rw [due, rest, ← List.map_append, List.takeWhile_append_dropWhile]

theorem Sorted.mem_takeWhile (h : Sorted l) :
    x ∈ l.takeWhile (isDue t) ↔ x ∈ l ∧ x.1 ≤ t := by
  induction l with
  | nil => simp
  | cons y l ih =>
    obtain ⟨hy, hl⟩ := List.pairwise_cons.mp h
    by_cases hle : y.1 ≤ t
    · have hdue : isDue t y = true := decide_eq_true hle
      rw [List.takeWhile_cons_of_pos hdue, List.mem_cons, List.mem_cons, ih hl]
      grind
    · have hnot : ¬ isDue t y = true := by simpa [isDue] using hle
      rw [List.takeWhile_cons_of_neg hnot]
      grind

theorem Sorted.mem_dropWhile (h : Sorted l) :
    x ∈ l.dropWhile (isDue t) ↔ x ∈ l ∧ t < x.1 := by
  induction l with
  | nil => simp
  | cons y l ih =>
    obtain ⟨hy, hl⟩ := List.pairwise_cons.mp h
    by_cases hle : y.1 ≤ t
    · have hdue : isDue t y = true := decide_eq_true hle
      rw [List.dropWhile_cons_of_pos hdue, List.mem_cons, ih hl]
      grind
    · have hnot : ¬ isDue t y = true := by simpa [isDue] using hle
      rw [List.dropWhile_cons_of_neg hnot]
      grind

theorem mem_due (h : Sorted d.pending) : a ∈ d.due ↔ ∃ t, (t, a) ∈ d.pending ∧ t ≤ d.now := by
  rw [due, List.mem_map]
  constructor
  · rintro ⟨⟨t, b⟩, hx, rfl⟩
    exact ⟨t, h.mem_takeWhile.mp hx⟩
  · rintro ⟨t, ht⟩
    exact ⟨(t, a), h.mem_takeWhile.mpr ht, rfl⟩

theorem mem_rest (h : Sorted d.pending) : x ∈ d.rest.pending ↔ x ∈ d.pending ∧ d.now < x.1 :=
  h.mem_dropWhile

end Deadlines

end Stmdsp
