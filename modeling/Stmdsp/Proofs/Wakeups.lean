import Stmdsp.Proofs.KernelCalls

/-! Threads that one interrupt wakes: a reschedule behind all wakeups leaves what a reschedule
behind each of them does. -/

namespace Stmdsp

namespace PrioQueue

variable {T : Type} {prio : T → ℕ} {a b cur tp : T} {l : List T}

/-- Ahead of the equals. -/
abbrev ahead (prio : T → ℕ) (a : T) (l : List T) : List T :=
  insertPast (fun cp => decide (prio a < prio cp)) a l

/-- Behind the equals. -/
abbrev behind (prio : T → ℕ) (a : T) (l : List T) : List T :=
  insertPast (fun cp => decide (prio a ≤ prio cp)) a l

theorem ahead_of_lt (h : prio a < prio b) : ahead prio a (b :: l) = b :: ahead prio a l :=
  insertPast_cons_of_pos (decide_eq_true h)

theorem ahead_of_le (h : prio b ≤ prio a) : ahead prio a (b :: l) = a :: b :: l :=
  insertPast_cons_of_neg (decide_eq_false (Nat.not_lt_of_le h))

theorem behind_of_le (h : prio a ≤ prio b) : behind prio a (b :: l) = b :: behind prio a l :=
  insertPast_cons_of_pos (decide_eq_true h)

theorem behind_of_lt (h : prio b < prio a) : behind prio a (b :: l) = a :: b :: l :=
  insertPast_cons_of_neg (decide_eq_false (Nat.not_le_of_lt h))

/-- In front of a list of which it passes none. -/
theorem ahead_of_forall (h : ∀ x ∈ l, prio x ≤ prio a) : ahead prio a l = a :: l := by
  cases l with
  | nil => rfl
  | cons x l => exact ahead_of_le (h x List.mem_cons_self)

theorem behind_of_forall (h : ∀ x ∈ l, prio x < prio a) : behind prio a l = a :: l := by
  cases l with
  | nil => rfl
  | cons x l => exact behind_of_lt (h x List.mem_cons_self)

/-- One thread goes ahead of its equals and one behind them, in either order. -/
theorem ahead_behind : ahead prio cur (behind prio tp l) = behind prio tp (ahead prio cur l) := by
  induction l with
  | nil =>
    have hcur : ahead prio cur [] = [cur] := rfl
    have htp : behind prio tp [] = [tp] := rfl
    rcases Nat.lt_or_ge (prio cur) (prio tp) with h | h
    · rw [htp, hcur, ahead_of_lt h, behind_of_lt h, hcur]
    · rw [htp, hcur, ahead_of_le h, behind_of_le h, htp]
  | cons x l ih =>
    rcases Nat.lt_or_ge (prio cur) (prio x) with hcur | hcur
    · rcases Nat.lt_or_ge (prio x) (prio tp) with htp | htp
      · rw [behind_of_lt htp, ahead_of_lt (hcur.trans htp), ahead_of_lt hcur, behind_of_lt htp]
      · rw [behind_of_le htp, ahead_of_lt hcur, ahead_of_lt hcur, ih, behind_of_le htp]
    · rcases Nat.lt_or_ge (prio x) (prio tp) with htp | htp
      · rw [behind_of_lt htp, ahead_of_le hcur]
        rcases Nat.lt_or_ge (prio cur) (prio tp) with h | h
        · rw [ahead_of_lt h, ahead_of_le hcur, behind_of_lt h]
        · rw [ahead_of_le h, behind_of_le h, behind_of_lt htp]
      · rw [behind_of_le htp, ahead_of_le hcur, ahead_of_le hcur, behind_of_le (htp.trans hcur),
          behind_of_le htp]

end PrioQueue

namespace Kernel

open PrioQueue

variable {T M : Type} [DecidableEq T] {prio : T → ℕ} {k k' : Kernel T M} {t tp : T} {rest : List T}

/-- What `wakeup` leaves. -/
def woken (prio : T → ℕ) (k : Kernel T M) (tp : T) : Kernel T M :=
  { (k.setRdymsg tp .MSG_TIMEOUT).setState tp .CH_STATE_READY with
    ready := behind prio tp k.ready }

theorem wakeup_eq (hb : k.blocked tp = some .CH_STATE_SLEEPING) :
    k.wakeup prio tp = some (k.woken prio tp) := by
  obtain ⟨hstate, -⟩ := blocked_eq_some hb
  have hready : (k.setRdymsg tp .MSG_TIMEOUT).state tp ≠ .CH_STATE_READY := by
    rw [setRdymsg, hstate]
    nofun
  have hfinal : (k.setRdymsg tp .MSG_TIMEOUT).state tp ≠ .CH_STATE_FINAL := by
    rw [setRdymsg, hstate]
    nofun
  exact makeReady_eq _ hready hfinal

theorem woken_blocked (hc : k.Consistent prio) (hb : k.blocked tp = some .CH_STATE_SLEEPING) :
    (k.woken prio tp).Consistent prio ∧
      (k.woken prio tp).blocked = Function.update k.blocked tp none := by
  obtain ⟨k₁, hk₁, hr₁⟩ := wakeup_spec hc hb
  rw [wakeup_eq hb] at hk₁
  obtain rfl := Option.some.inj hk₁
  exact ⟨hr₁.consistent, hr₁.blocked⟩

theorem switchTo_consistent (hc : k.Consistent prio) (hl : k.ready = t :: rest)
    (hlt : prio k.current < prio t) : (k.switchTo prio t rest).Consistent prio ∧
      (k.switchTo prio t rest).blocked = k.blocked := by
  obtain ⟨k', hk', hr⟩ := chSchRescheduleS_spec hc
  rw [reschedule_eq_switchTo hc hl hlt] at hk'
  obtain rfl := Option.some.inj hk'
  exact ⟨hr.settled.consistent, hr.blocked⟩

/-- A switch and a wakeup, in either order. -/
theorem woken_comm (htpcur : tp ≠ k.current) (htpt : tp ≠ t) :
    (k.woken prio tp).switchTo prio t (behind prio tp rest) =
      (k.switchTo prio t rest).woken prio tp := by
  have hstate : Function.update (Function.update (Function.update k.state tp .CH_STATE_READY)
        k.current .CH_STATE_READY) t .CH_STATE_CURRENT =
      Function.update (Function.update (Function.update k.state k.current .CH_STATE_READY) t
        .CH_STATE_CURRENT) tp .CH_STATE_READY := by
    rw [Function.update_comm htpcur, Function.update_comm htpt]
  exact congrArg₂ (fun state ready => { k.woken prio tp with
    current := t, state := state, ready := ready }) hstate ahead_behind

/-- A thread that has not run yet when the one just woken takes over leaves no trace. -/
theorem switchTo_woken_switchTo (ht : k.state t = .CH_STATE_READY) (htpt : tp ≠ t)
    (hcurt : k.current ≠ t) (hlt : prio k.current < prio t)
    (hle : ∀ x ∈ ahead prio k.current rest, prio x ≤ prio t) :
    ((k.switchTo prio t rest).woken prio tp).switchTo prio tp (ahead prio k.current rest) =
      (k.woken prio tp).switchTo prio tp (t :: rest) := by
  have hstate : Function.update (Function.update (Function.update (Function.update
        (Function.update k.state k.current .CH_STATE_READY) t .CH_STATE_CURRENT) tp
        .CH_STATE_READY) t .CH_STATE_READY) tp .CH_STATE_CURRENT =
      Function.update (Function.update (Function.update k.state tp .CH_STATE_READY) k.current
        .CH_STATE_READY) tp .CH_STATE_CURRENT := by
    funext x
    by_cases hx : x = tp
    · simp [hx]
    by_cases hx' : x = t
    · simp [hx', htpt.symm, hcurt.symm, ht]
    · simp [Function.update_apply, hx, hx']
  have hlast : ahead prio t (ahead prio k.current rest) = ahead prio k.current (t :: rest) :=
    (ahead_of_forall hle).trans (ahead_of_lt hlt).symm
  exact congrArg₂ (fun state ready => { k.woken prio tp with
    current := tp, state := state, ready := ready }) hstate hlast

/-- The reschedule of a kernel with a thread woken, if the kernel itself has to switch. -/
theorem woken_switchTo (hc : k.Consistent prio) (hb : k.blocked tp = some .CH_STATE_SLEEPING)
    (hl : k.ready = t :: rest) (hlt : prio k.current < prio t) :
    (k.woken prio tp).chSchRescheduleS prio =
      ((k.switchTo prio t rest).woken prio tp).chSchRescheduleS prio := by
  have hc₁ := (woken_blocked hc hb).1
  have hready : (k.woken prio tp).ready = behind prio tp (t :: rest) := by rw [← hl]; rfl
  have hsorted : PrioQueue.Sorted prio (t :: rest) := hl ▸ hc.sorted
  have hmem : t ∈ k.ready := hl ▸ List.mem_cons_self
  obtain ⟨htpcur, htpl⟩ := hc.notMem_of_blocked hb
  have htpt : tp ≠ t := fun heq => htpl (heq ▸ hmem)
  have hcurt : k.current ≠ t := fun heq => hc.current_notMem (heq ▸ hmem)
  have hle : ∀ x ∈ ahead prio k.current rest, prio x ≤ prio t := by
    intro x hx
    rcases mem_insertPast.mp hx with rfl | hx
    · exact hlt.le
    · exact hsorted.le_head hx
  rcases Nat.lt_or_ge (prio t) (prio tp) with htp | htp
  · have hc' := switchTo_consistent hc hl hlt
    have hb' : (k.switchTo prio t rest).blocked tp = some .CH_STATE_SLEEPING := hc'.2 ▸ hb
    have hc₂ := (woken_blocked hc'.1 hb').1
    have hlist : (k.woken prio tp).ready = tp :: t :: rest := hready.trans (behind_of_lt htp)
    have hlist' : ((k.switchTo prio t rest).woken prio tp).ready =
        tp :: ahead prio k.current rest :=
      behind_of_forall fun x hx => (hle x hx).trans_lt htp
    rw [reschedule_eq_switchTo hc₁ hlist (hlt.trans htp), reschedule_eq_switchTo hc₂ hlist' htp,
      switchTo_woken_switchTo ((hc.ready t).mpr hmem) htpt hcurt hlt hle]
  · have hlist : (k.woken prio tp).ready = t :: behind prio tp rest := hready.trans (behind_of_le htp)
    have hstays : ∀ x ∈ ((k.switchTo prio t rest).woken prio tp).ready, prio x ≤ prio t := by
      intro x hx
      rcases mem_insertPast.mp hx with rfl | hx
      · exact htp
      · exact hle x hx
    rw [reschedule_eq_switchTo hc₁ hlist hlt, woken_comm htpcur htpt, reschedule_eq_self hstays]

/-- Whether or not it has to switch. -/
theorem woken_reschedule (hc : k.Consistent prio) (hb : k.blocked tp = some .CH_STATE_SLEEPING)
    (hk' : k.chSchRescheduleS prio = some k') :
    (k.woken prio tp).chSchRescheduleS prio = (k'.woken prio tp).chSchRescheduleS prio := by
  by_cases h : ∀ t ∈ k.ready, prio t ≤ prio k.current
  · rw [reschedule_eq_self h] at hk'
    obtain rfl := Option.some.inj hk'
    rfl
  · obtain ⟨t, rest, hl, hlt⟩ := exists_higher hc h
    rw [reschedule_eq_switchTo hc hl hlt] at hk'
    obtain rfl := Option.some.inj hk'
    exact woken_switchTo hc hb hl hlt

end Kernel

end Stmdsp
