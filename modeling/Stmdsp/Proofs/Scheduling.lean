import Stmdsp.Model.Kernel

/-! What the kernel's operations do to the threads: who runs, who could, and why the
others do not. Outside of its operations the thread that runs has the highest priority. -/

namespace Stmdsp

def TState.runnable : TState → Bool
  | CH_STATE_READY => true
  | CH_STATE_CURRENT => true
  | _ => false

namespace Kernel

variable {T M : Type} {prio : T → ℕ} {k k' : Kernel T M} {t tp : T} {st : TState}

/-- Why a thread does not run: `none` if it runs or could. -/
def blocked (k : Kernel T M) (t : T) : Option TState :=
  if (k.state t).runnable then none else some (k.state t)

/-- The lists and the states of the threads agree. -/
structure Consistent (prio : T → ℕ) (k : Kernel T M) : Prop where
  sorted : PrioQueue.Sorted prio k.ready
  nodup : k.ready.Nodup
  ready : ∀ t, k.state t = .CH_STATE_READY ↔ t ∈ k.ready
  current : ∀ t, k.state t = .CH_STATE_CURRENT ↔ t = k.current

/-- And no thread of the ready list has a higher priority than the one that runs. -/
structure Settled (prio : T → ℕ) (k : Kernel T M) : Prop where
  consistent : k.Consistent prio
  highest : ∀ t ∈ k.ready, prio t ≤ prio k.current

theorem blocked_eq_some (h : k.blocked t = some st) : k.state t = st ∧ st.runnable = false := by
  rw [blocked] at h
  split at h
  · cases h
  · rename_i hrunnable
    obtain rfl := Option.some.inj h
    exact ⟨rfl, Bool.eq_false_of_not_eq_true hrunnable⟩

theorem blocked_of_state (h : k.state t = st) (hst : st.runnable = false) : k.blocked t = some st := by
  rw [blocked, h, hst]
  exact if_neg Bool.false_ne_true

namespace Consistent

theorem state_current (h : k.Consistent prio) : k.state k.current = .CH_STATE_CURRENT :=
  (h.current _).mpr rfl

theorem current_notMem (h : k.Consistent prio) : k.current ∉ k.ready := by
  intro hmem
  have hready := (h.ready _).mpr hmem
  rw [h.state_current] at hready
  cases hready

theorem blocked_eq_none (h : k.Consistent prio) :
    k.blocked t = none ↔ t = k.current ∨ t ∈ k.ready := by
  rw [← h.current, ← h.ready, blocked]
  cases k.state t <;> simp [TState.runnable]

theorem blocked_current (h : k.Consistent prio) : k.blocked k.current = none :=
  h.blocked_eq_none.mpr (.inl rfl)

theorem notMem_of_blocked (h : k.Consistent prio) (hb : k.blocked t = some st) :
    t ≠ k.current ∧ t ∉ k.ready := by
  have hnot : ¬ (t = k.current ∨ t ∈ k.ready) := by
    rw [← h.blocked_eq_none, hb]
    exact Option.some_ne_none st
  exact not_or.mp hnot

end Consistent

/-- The thread that runs and could be overtaken by none. -/
theorem Settled.le_current (h : k.Settled prio) (ht : k.blocked t = none) :
    prio t ≤ prio k.current := by
  rcases h.consistent.blocked_eq_none.mp ht with rfl | hmem
  · exact le_rfl
  · exact h.highest t hmem

/-- A thread of the highest priority of all is the one that runs. -/
theorem Settled.current_of_lt (h : k.Settled prio) (ht : k.blocked t = none)
    (hlt : ∀ t', t' ≠ t → k.blocked t' = none → prio t' < prio t) : k.current = t := by
  by_contra hne
  exact Nat.not_le_of_lt (hlt _ hne h.consistent.blocked_current) (h.le_current ht)

theorem ahead_sorted {l : List T} (hl : PrioQueue.Sorted prio l) :
    PrioQueue.Sorted prio (PrioQueue.insertPast (fun cp => decide (prio tp < prio cp)) tp l) := by
  apply hl.insertPast
  · intro b hb
    exact Nat.le_of_lt (of_decide_eq_true hb)
  · intro b hb
    exact Nat.le_of_not_lt (of_decide_eq_false hb)

theorem behind_sorted {l : List T} (hl : PrioQueue.Sorted prio l) :
    PrioQueue.Sorted prio (PrioQueue.insertPast (fun cp => decide (prio tp ≤ prio cp)) tp l) := by
  apply hl.insertPast
  · intro b hb
    exact of_decide_eq_true hb
  · intro b hb
    exact Nat.le_of_not_le (of_decide_eq_false hb)

variable [DecidableEq T]

/-- What an operation leaves that has no thread change lists but `tp`. -/
structure Readied (prio : T → ℕ) (k k' : Kernel T M) (tp : T) : Prop where
  consistent : k'.Consistent prio
  current : k'.current = k.current
  blocked : k'.blocked = Function.update k.blocked tp none
  u : k'.u = k.u
  msgqueue : k'.msgqueue = k.msgqueue

theorem makeReady_eq (past : T → Bool) (h : k.state tp ≠ .CH_STATE_READY)
    (h' : k.state tp ≠ .CH_STATE_FINAL) :
    k.makeReady past tp =
      some { k.setState tp .CH_STATE_READY with ready := PrioQueue.insertPast past tp k.ready } :=
  if_pos ⟨h, h'⟩

theorem chSchReadyI_spec (hc : k.Consistent prio) (hb : k.blocked tp = some st)
    (hfinal : st ≠ .CH_STATE_FINAL) :
    ∃ k', k.chSchReadyI prio tp = some k' ∧ Readied prio k k' tp := by
  obtain ⟨hstate, hst⟩ := blocked_eq_some hb
  obtain ⟨hcur, hmem⟩ := hc.notMem_of_blocked hb
  have hready : k.state tp ≠ .CH_STATE_READY := (hc.ready tp).not.mpr hmem
  refine ⟨_, makeReady_eq _ hready (hstate ▸ hfinal), ⟨behind_sorted hc.sorted,
    PrioQueue.nodup_insertPast hc.nodup hmem, ?_, ?_⟩, rfl, ?_, rfl, rfl⟩
  · intro t
    show Function.update k.state tp .CH_STATE_READY t = _ ↔ _
    rw [PrioQueue.mem_insertPast]
    by_cases ht : t = tp
    · simp [ht]
    · rw [Function.update_of_ne ht, hc.ready, or_iff_right ht]
  · intro t
    show Function.update k.state tp .CH_STATE_READY t = _ ↔ t = k.current
    by_cases ht : t = tp
    · simp [ht, hcur]
    · rw [Function.update_of_ne ht, hc.current]
  · funext t
    by_cases ht : t = tp
    · simp [blocked, setState, ht, TState.runnable]
    · simp [blocked, setState, Function.update_of_ne ht]

/-- What an operation leaves after which the thread may be another. -/
structure Resettled (prio : T → ℕ) (k k' : Kernel T M) (blocked : T → Option TState) : Prop where
  settled : k'.Settled prio
  blocked : k'.blocked = blocked
  u : k'.u = k.u
  msgqueue : k'.msgqueue = k.msgqueue

/-- Going to sleep: the first of the others runs. -/
theorem chSchGoSleepS_spec (hc : k.Consistent prio) (hne : k.ready ≠ []) (st : TState)
    (hst : st.runnable = false) :
    ∃ k', k.chSchGoSleepS st = some k' ∧
      Resettled prio k k' (Function.update k.blocked k.current (some st)) := by
  obtain ⟨tp, rest, hlist⟩ := List.exists_cons_of_ne_nil hne
  have hcur : k.current ∉ tp :: rest := hlist ▸ hc.current_notMem
  have hcur' : k.current ≠ tp ∧ k.current ∉ rest := by simpa using hcur
  have hnodup : tp ∉ rest ∧ rest.Nodup := List.nodup_cons.mp (hlist ▸ hc.nodup)
  have hsorted : PrioQueue.Sorted prio (tp :: rest) := hlist ▸ hc.sorted
  have hready : st ≠ .CH_STATE_READY := by rintro rfl; cases hst
  have hcurrent : st ≠ .CH_STATE_CURRENT := by rintro rfl; cases hst
  have heq : k.chSchGoSleepS st =
      some { (k.setState k.current st).setState tp .CH_STATE_CURRENT with
        current := tp, ready := rest } := by
    rw [chSchGoSleepS, pickFirst, show (k.setState k.current st).ready = tp :: rest from hlist]
  refine ⟨_, heq, ⟨⟨⟨hsorted.tail, hnodup.2, ?_, ?_⟩, fun t ht => hsorted.le_head ht⟩, ?_, rfl, rfl⟩⟩
  · intro t
    show Function.update (Function.update k.state k.current st) tp .CH_STATE_CURRENT t = _ ↔ t ∈ rest
    by_cases ht : t = tp
    · simp [ht, hnodup.1]
    by_cases ht' : t = k.current
    · simp [ht', Function.update_of_ne hcur'.1, hready, hcur'.2]
    · rw [Function.update_of_ne ht, Function.update_of_ne ht', hc.ready, hlist, List.mem_cons,
        or_iff_right ht]
  · intro t
    show Function.update (Function.update k.state k.current st) tp .CH_STATE_CURRENT t = _ ↔ t = tp
    by_cases ht : t = tp
    · simp [ht]
    by_cases ht' : t = k.current
    · simp [ht', hcurrent, hcur'.1]
    · rw [Function.update_of_ne ht, Function.update_of_ne ht', hc.current]
      exact ⟨fun h => absurd h ht', fun h => absurd h ht⟩
  · funext t
    by_cases ht : t = tp
    · have hnone : k.blocked tp = none := hc.blocked_eq_none.mpr (.inr (by simp [hlist]))
      rw [ht, Function.update_of_ne hcur'.1.symm, hnone]
      simp [blocked, setState, TState.runnable]
    by_cases ht' : t = k.current
    · simp [blocked, setState, ht', Function.update_of_ne hcur'.1, hst]
    · simp [blocked, setState, Function.update_of_ne ht, Function.update_of_ne ht']

/-- The thread that runs goes to the ready list, ahead of its equals, and another runs. -/
def switchTo (prio : T → ℕ) (k : Kernel T M) (ntp : T) (rest : List T) : Kernel T M :=
  { k with
    state := Function.update (Function.update k.state k.current .CH_STATE_READY) ntp .CH_STATE_CURRENT
    current := ntp
    ready := PrioQueue.insertPast (fun cp => decide (prio k.current < prio cp)) k.current rest }

theorem switchTo_spec (hc : k.Consistent prio) {ntp : T} {rest : List T} (hne : ntp ≠ k.current)
    (hsorted : PrioQueue.Sorted prio rest) (hnodup : rest.Nodup)
    (hmem : ∀ t, t ∈ rest ↔ t ∈ k.ready ∧ t ≠ ntp) (hle : prio k.current ≤ prio ntp)
    (hhighest : ∀ t ∈ rest, prio t ≤ prio ntp) :
    Resettled prio k (k.switchTo prio ntp rest) (Function.update k.blocked ntp none) := by
  have hcur : k.current ∉ rest := fun h => hc.current_notMem ((hmem _).mp h).1
  have hcurrent : k.blocked k.current = none := hc.blocked_current
  refine ⟨⟨⟨ahead_sorted hsorted, PrioQueue.nodup_insertPast hnodup hcur, ?_, ?_⟩, ?_⟩, ?_, rfl, rfl⟩
  · intro t
    show Function.update (Function.update k.state k.current .CH_STATE_READY) ntp .CH_STATE_CURRENT t =
      _ ↔ t ∈ PrioQueue.insertPast _ k.current rest
    rw [PrioQueue.mem_insertPast, hmem]
    by_cases ht : t = ntp
    · simp [ht, hne]
    by_cases ht' : t = k.current
    · simp [ht', Function.update_of_ne hne.symm]
    · rw [Function.update_of_ne ht, Function.update_of_ne ht', hc.ready, or_iff_right ht',
        and_iff_left ht]
  · intro t
    show Function.update (Function.update k.state k.current .CH_STATE_READY) ntp .CH_STATE_CURRENT t =
      _ ↔ t = ntp
    by_cases ht : t = ntp
    · simp [ht]
    by_cases ht' : t = k.current
    · simp [ht', hne.symm]
    · rw [Function.update_of_ne ht, Function.update_of_ne ht', hc.current]
      exact ⟨fun h => absurd h ht', fun h => absurd h ht⟩
  · intro t ht
    rcases PrioQueue.mem_insertPast.mp ht with rfl | ht
    · exact hle
    · exact hhighest t ht
  · funext t
    by_cases ht : t = ntp
    · simp [blocked, switchTo, ht, TState.runnable]
    by_cases ht' : t = k.current
    · rw [ht', Function.update_of_ne hne.symm, hcurrent]
      simp [blocked, switchTo, Function.update_of_ne hne.symm, TState.runnable]
    · simp [blocked, switchTo, Function.update_of_ne ht, Function.update_of_ne ht']

omit [DecidableEq T] in
theorem firstprio_cons (hl : k.ready = t :: rest) : k.firstprio prio = prio t := by
  rw [firstprio, hl]
  rfl

theorem reschedule_eq_switchTo (hc : k.Consistent prio) (hl : k.ready = t :: rest)
    (hlt : prio k.current < prio t) :
    k.chSchRescheduleS prio = some (k.switchTo prio t rest) := by
  have hcur : k.current ∉ t :: rest := hl ▸ hc.current_notMem
  have hne : k.current ≠ t := fun heq => hcur (heq ▸ List.mem_cons_self)
  have hstate := hc.state_current
  rw [chSchRescheduleS, firstprio_cons hl, if_pos hlt, chSchDoReschedule, pickFirst, hl,
    Option.bind_some, chSchReadyAheadI, makeReady_eq]
  · simp only [setState, switchTo, Function.update_comm hne]
  · simp [setState, Function.update_of_ne hne, hstate]
  · simp [setState, Function.update_of_ne hne, hstate]

theorem reschedule_eq_self (h : ∀ t ∈ k.ready, prio t ≤ prio k.current) :
    k.chSchRescheduleS prio = some k := by
  rw [chSchRescheduleS]
  apply if_neg
  cases hl : k.ready with
  | nil =>
    rw [firstprio, hl]
    exact Nat.not_lt_zero _
  | cons t rest =>
    rw [firstprio_cons hl]
    exact Nat.not_lt_of_le (h t (hl ▸ List.mem_cons_self))

omit [DecidableEq T] in
/-- A thread that is not settled has one of a higher priority at the head of the list. -/
theorem exists_higher (hc : k.Consistent prio) (h : ¬ ∀ t ∈ k.ready, prio t ≤ prio k.current) :
    ∃ t rest, k.ready = t :: rest ∧ prio k.current < prio t := by
  cases hl : k.ready with
  | nil =>
    rw [hl] at h
    exact absurd (fun t ht => absurd ht List.not_mem_nil) h
  | cons t rest =>
    have hsorted : PrioQueue.Sorted prio (t :: rest) := hl ▸ hc.sorted
    refine ⟨t, rest, rfl, ?_⟩
    by_contra hle
    apply h
    intro x hx
    rcases List.mem_cons.mp (hl ▸ hx) with rfl | hx
    · exact Nat.le_of_not_lt hle
    · exact (hsorted.le_head hx).trans (Nat.le_of_not_lt hle)

/-- Rescheduling changes nothing about who could run. -/
theorem chSchRescheduleS_spec (hc : k.Consistent prio) :
    ∃ k', k.chSchRescheduleS prio = some k' ∧ Resettled prio k k' k.blocked := by
  by_cases h : ∀ t ∈ k.ready, prio t ≤ prio k.current
  · exact ⟨k, reschedule_eq_self h, ⟨hc, h⟩, rfl, rfl, rfl⟩
  · obtain ⟨tp, rest, hlist, hlt⟩ := exists_higher hc h
    have hsorted : PrioQueue.Sorted prio (tp :: rest) := hlist ▸ hc.sorted
    have hcur : k.current ∉ tp :: rest := hlist ▸ hc.current_notMem
    have hcur' : k.current ≠ tp ∧ k.current ∉ rest := by simpa using hcur
    have hnodup : tp ∉ rest ∧ rest.Nodup := List.nodup_cons.mp (hlist ▸ hc.nodup)
    have hspec := switchTo_spec hc hcur'.1.symm hsorted.tail hnodup.2 (fun t => ?_)
      (Nat.le_of_lt hlt) (fun t ht => hsorted.le_head ht)
    · have hnone : k.blocked tp = none := hc.blocked_eq_none.mpr (.inr (by simp [hlist]))
      refine ⟨_, reschedule_eq_switchTo hc hlist hlt,
        { hspec with blocked := hspec.blocked.trans ?_ }⟩
      rw [← hnone, Function.update_eq_self]
    · rw [hlist, List.mem_cons]
      constructor
      · intro ht
        exact ⟨.inr ht, fun h => hnodup.1 (h ▸ ht)⟩
      · rintro ⟨ht, hne⟩
        exact ht.resolve_left hne

theorem Consistent.setRdymsg (hc : k.Consistent prio) (msg : MsgStatus) :
    (k.setRdymsg tp msg).Consistent prio := ⟨hc.sorted, hc.nodup, hc.ready, hc.current⟩

/-- A woken thread runs at once if its priority is the higher one. -/
theorem chSchWakeupS_spec (hs : k.Settled prio) (hb : k.blocked tp = some st)
    (hfinal : st ≠ .CH_STATE_FINAL) (msg : MsgStatus) :
    ∃ k', k.chSchWakeupS prio tp msg = some k' ∧
      Resettled prio (k.setRdymsg tp msg) k' (Function.update k.blocked tp none) := by
  have hc := hs.consistent
  have hguard : k.ready = [] ∨ k.firstprio prio ≤ prio k.current := by
    rw [firstprio]
    cases hlist : k.ready with
    | nil => exact .inl rfl
    | cons t rest => exact .inr (hs.highest t (by simp [hlist]))
  have hc' : (k.setRdymsg tp msg).Consistent prio := hc.setRdymsg msg
  rw [chSchWakeupS, if_pos hguard]
  dsimp only
  by_cases hle : prio tp ≤ prio k.current
  · obtain ⟨k', hk', hr⟩ := chSchReadyI_spec (k := k.setRdymsg tp msg) hc' hb hfinal
    refine ⟨k', (if_pos hle).trans hk', ⟨⟨hr.consistent, ?_⟩, hr.blocked, hr.u, hr.msgqueue⟩⟩
    intro t ht
    rw [show k'.current = k.current from hr.current]
    have hnone : k'.blocked t = none := hr.consistent.blocked_eq_none.mpr (.inr ht)
    rw [hr.blocked] at hnone
    by_cases htp : t = tp
    · rwa [htp]
    · rw [Function.update_of_ne htp] at hnone
      exact hs.le_current hnone
  · obtain ⟨hcur, hmem⟩ := hc.notMem_of_blocked hb
    have hstate := hc.state_current
    have heq : ((k.setRdymsg tp msg).chSchReadyAheadI prio k.current).map (fun k =>
        { k.setState tp .CH_STATE_CURRENT with current := tp }) =
        some ((k.setRdymsg tp msg).switchTo prio tp k.ready) := by
      rw [chSchReadyAheadI, makeReady_eq]
      · rfl
      · show k.state k.current ≠ _
        rw [hstate]
        decide
      · show k.state k.current ≠ _
        rw [hstate]
        decide
    refine ⟨_, (if_neg hle).trans heq, switchTo_spec hc' hcur hc.sorted hc.nodup ?_
      (Nat.le_of_not_le hle) ?_⟩
    · intro t
      exact ⟨fun ht => ⟨ht, fun h => hmem (h ▸ ht)⟩, fun ht => ht.1⟩
    · intro t ht
      exact (hs.highest t ht).trans (Nat.le_of_not_le hle)

end Kernel

end Stmdsp
