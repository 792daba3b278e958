import Stmdsp.Proofs.Alarms

/-! Whole runs of the timers: they are runs of the deadlines, nothing in them fails, and each
timer is called once, not before its time and not without need after it. -/

namespace Stmdsp

open Deadlines

variable {T : Type}

def DeadlineStep (d : Deadlines T) (a : VTAct T × List T) (d' : Deadlines T) : Prop :=
  a.1.meaning d = (a.2, d')

def VTAct.isCount : VTAct T → Bool
  | .count => true
  | _ => false

def VTAct.sets [DecidableEq T] (par : T) : VTAct T → Bool
  | .set _ p => p == par
  | _ => false

/-- The steps of the interrupt, and the setting of the alarm. -/
def VTAct.serves : VTAct T → Bool
  | .interrupt => true
  | .tick => true
  | .alarm => true
  | _ => false

namespace VirtualTimers

variable {v v' v₁ v₂ : VirtualTimers T} {d d₁ : Deadlines T} {par : T}
  {tr : List (VirtualTimers T × VTAct T × List T)}

/-- The ticks of the counter in a stretch of a run. -/
def elapsed (tr : List (VirtualTimers T × VTAct T × List T)) : ℕ :=
  tr.countP fun p => p.2.1.isCount

def calls (tr : List (VirtualTimers T × VTAct T × List T)) : List T := tr.flatMap fun p => p.2.2

theorem calls_snoc {p : VirtualTimers T × VTAct T × List T} :
    calls (tr ++ [p]) = calls tr ++ p.2.2 := by
  rw [calls, List.flatMap_append, List.flatMap_singleton]
  rfl

theorem meaning_now (a : VTAct T) :
    (a.meaning d).2.now = d.now + if a.isCount then 1 else 0 := by
  cases a <;> rfl

theorem elapsed_snoc {p : VirtualTimers T × VTAct T × List T} :
    elapsed (tr ++ [p]) = elapsed tr + if p.2.1.isCount then 1 else 0 := by
  rw [elapsed, List.countP_append, List.countP_singleton]
  rfl

theorem Represents.sorted (h : Represents v d) : Sorted d.pending := by
  obtain ⟨L, h⟩ := h
  exact Tracks.sorted h

/-- A run from any state that holds deadlines. -/
theorem Represents.run (hrep : Represents v d) (h : Run VTStep v tr v') :
    ∃ d' tr', Run DeadlineStep d tr' d' ∧ tr'.map Prod.snd = tr.map Prod.snd ∧
      d'.now = d.now + elapsed tr ∧ Represents v' d' := by
  induction h with
  | nil => exact ⟨d, [], .nil, rfl, rfl, hrep⟩
  | snoc hr hs ih =>
    rename_i a
    obtain ⟨d', tr', hd, hacts, hnow, hrep'⟩ := ih
    obtain ⟨hcalled, hrep''⟩ := hrep'.step hs
    refine ⟨_, _, hd.snoc (a := a) (Prod.ext hcalled.symm rfl), ?_, ?_, hrep''⟩
    · rw [List.map_append, List.map_append, hacts]
      rfl
    · rw [meaning_now, hnow, elapsed_snoc, Nat.add_assoc]

section Watched

variable [DecidableEq T]

/-- A timer set for `D`, in the list or called in time. -/
structure Watched (d : Deadlines T) (par : T) (D : ℕ) (called : List T) : Prop where
  once : (d.pending.map Prod.snd).count par + called.count par = 1
  deadline : ∀ x ∈ d.pending, x.2 = par → x.1 = D
  late : par ∈ called → D ≤ d.now

variable {D : ℕ} {called : List T}

theorem Watched.nil (h : Watched d par D called) (hd : d.pending = d₁.pending)
    (hnow : d.now ≤ d₁.now) : Watched d₁ par D (called ++ []) := by
  rw [List.append_nil]
  exact ⟨hd ▸ h.once, hd ▸ h.deadline, fun hc => (h.late hc).trans hnow⟩

theorem Watched.add {t : ℕ} {p : T} (h : Watched d par D called) (hne : p ≠ par) :
    Watched (d.add t p) par D called where
  once := by
    rw [add_perm.count_eq, List.count_cons_of_ne hne]
    exact h.once
  deadline := by
    intro x hx hpar
    rcases mem_add.mp hx with rfl | hx
    · exact absurd hpar hne
    · exact h.deadline x hx hpar
  late := h.late

/-- What a turn of the loop takes from the list it calls. -/
theorem Watched.tick (h : Watched d par D called) (hsorted : Sorted d.pending) :
    Watched d.rest par D (called ++ d.due) where
  once := by
    have honce := h.once
    rw [← due_append_rest, List.count_append] at honce
    rw [List.count_append]
    omega
  deadline := fun x hx => h.deadline x (List.dropWhile_subset _ hx)
  late := by
    intro hcalled
    rcases List.mem_append.mp hcalled with hc | hdue
    · exact h.late hc
    · obtain ⟨t, ht, hle⟩ := (mem_due hsorted).mp hdue
      obtain rfl : t = D := h.deadline _ ht rfl
      exact hle

theorem Watched.step (h : Watched d par D called) (hsorted : Sorted d.pending) (a : VTAct T)
    (hne : a.sets par = false) :
    Watched (a.meaning d).2 par D (called ++ (a.meaning d).1) := by
  cases a with
  | count => exact h.nil rfl (Nat.le_succ _)
  | set delay p =>
    have hp : p ≠ par := beq_eq_false_iff_ne.mp hne
    exact (h.add hp).nil rfl le_rfl
  | interrupt => exact h.nil rfl le_rfl
  | tick => exact h.tick hsorted
  | alarm => exact h.nil rfl le_rfl

/-- It is in the list exactly as long as it has not been called. -/
theorem Watched.mem_iff (h : Watched d par D called) :
    par ∈ d.pending.map Prod.snd ↔ par ∉ called := by
  have honce := h.once
  rw [← List.count_pos_iff, ← List.count_pos_iff]
  omega

theorem Watched.run (hrep : Represents v d) (hw : Watched d par D []) (h : Run VTStep v tr v')
    (hne : ∀ p ∈ tr, p.2.1.sets par = false) :
    ∃ d', Represents v' d' ∧ d'.now = d.now + elapsed tr ∧ Watched d' par D (calls tr) := by
  induction h with
  | nil => exact ⟨d, hrep, rfl, hw⟩
  | snoc hr hs ih =>
    rename_i a
    rw [List.forall_mem_append, List.forall_mem_singleton] at hne
    obtain ⟨d', hrep', hnow, hw'⟩ := ih hne.1
    obtain ⟨hcalled, hrep''⟩ := hrep'.step hs
    refine ⟨_, hrep'', ?_, ?_⟩
    · rw [meaning_now, hnow, elapsed_snoc, Nat.add_assoc]
    · rw [calls_snoc, hcalled]
      exact hw'.step hrep'.sorted a.1 hne.2

/-- With no interrupt pending its time has at most just come. -/
theorem Watched.le_of_settled (h : Watched d par D called) (hrep : Represents v d)
    (hout : v.phase = .out) (hpend : v.pending = false) (hmem : par ∈ d.pending.map Prod.snd) :
    d.now ≤ D := by
  obtain ⟨x, hx, hpar⟩ := List.mem_map.mp hmem
  rw [← h.deadline x hx hpar]
  by_contra hlt
  rw [(hrep.pending_iff hout).2 ⟨x, hx, Nat.lt_of_not_le hlt⟩] at hpend
  cases hpend

/-- The timer has just been set. -/
theorem watched_add {t : ℕ} (hnew : par ∉ d.pending.map Prod.snd) :
    Watched (d.add t par) par t [] where
  once := by
    rw [add_perm.count_eq, List.count_cons_self, List.count_eq_zero_of_not_mem hnew]
    rfl
  deadline := by
    intro x hx hpar
    rcases mem_add.mp hx with rfl | hx
    · rfl
    · exact absurd (hpar ▸ List.mem_map_of_mem hx) hnew
  late := nofun

end Watched

theorem timers_eq (h : Represents v d) : v.timers.map Prod.snd = d.pending.map Prod.snd := by
  obtain ⟨L, h⟩ := h
  rw [← h.times, DeltaList.times_map_snd]

theorem cnt_eq (h : Represents v d) : v.cnt = d.now % TIME_WRAP := by
  obtain ⟨L, h⟩ := h
  exact h.cnt

/-! ### What is under way comes to its end -/

/-- No function is under way and no interrupt is pending. -/
def Settled (v : VirtualTimers T) : Prop := v.phase = .out ∧ v.pending = false

/-- At most `n` steps of the interrupt and of the alarm lead from one state to the other. -/
def Serves (n : ℕ) (v v' : VirtualTimers T) : Prop :=
  ∃ tr, Run VTStep v tr v' ∧ (∀ p ∈ tr, p.2.1.serves = true) ∧ tr.length ≤ n

theorem Serves.refl : Serves 0 v v := ⟨[], .nil, nofun, le_rfl⟩

theorem Serves.head {n : ℕ} {a : VTAct T × List T} (hs : VTStep v a v₁) (ha : a.1.serves = true)
    (h : Serves n v₁ v') : Serves (n + 1) v v' := by
  obtain ⟨tr, hr, htr, hn⟩ := h
  refine ⟨_, (Run.single hs).append hr, ?_, Nat.succ_le_succ hn⟩
  rw [List.forall_mem_append, List.forall_mem_singleton]
  exact ⟨ha, htr⟩

theorem Serves.mono {n m : ℕ} (h : Serves n v v') (hle : n ≤ m) : Serves m v v' := by
  obtain ⟨tr, hr, htr, hn⟩ := h
  exact ⟨tr, hr, htr, hn.trans hle⟩

/-- A step as a function; `none` also where the action cannot happen or calls others. -/
def step [DecidableEq T] (v : VirtualTimers T) (a : VTAct T × List T) : Option (VirtualTimers T) :=
  if v.enabled a.1 then (v.act a.1).bind fun r => if r.1 = a.2 then some r.2 else none else none

theorem step_eq_some [DecidableEq T] {a : VTAct T × List T} (h : v.step a = some v') :
    VTStep v a v' := by
  obtain ⟨hen, h⟩ := Option.ite_none_right_eq_some.mp h
  obtain ⟨r, hr, h⟩ := Option.bind_eq_some_iff.mp h
  obtain ⟨hcalled, hv⟩ := Option.ite_none_right_eq_some.mp h
  exact ⟨hen, hr.trans (congrArg some (Prod.ext hcalled (Option.some.inj hv)))⟩

theorem exists_run [DecidableEq T] (acts : List (VTAct T × List T)) (p : VirtualTimers T → Bool)
    (h : (acts.foldlM step init).any p = true) :
    ∃ tr v, VTRun tr v ∧ tr.map Prod.snd = acts ∧ p v = true :=
  Run.exists_of_foldlM (fun _ _ _ => step_eq_some) acts p h

end VirtualTimers

end Stmdsp
