import Stmdsp.Model.VirtualTimers

/-! The delta list and the alarm hold what a list of deadlines over a clock that does not
wrap does: every step of the timers is its step, and calls the same timers. -/

namespace Stmdsp

open Deadlines

theorem chTimeAddX_mod {a b : ℕ} : chTimeAddX (a % TIME_WRAP) b = (a + b) % TIME_WRAP :=
  Nat.mod_add_mod a TIME_WRAP b

theorem chTimeDiffX_mod {a b : ℕ} (h : a ≤ b) (h' : b < a + TIME_WRAP) :
    chTimeDiffX (a % TIME_WRAP) (b % TIME_WRAP) = b - a := by
  unfold chTimeDiffX TIME_WRAP at *
  omega

/-- Two times that are less than the range apart. -/
theorem eq_of_mod_eq {a b : ℕ} (h : a ≤ b) (h' : b < a + TIME_WRAP)
    (heq : a % TIME_WRAP = b % TIME_WRAP) : a = b := by
  unfold TIME_WRAP at *
  omega

theorem delay_raised {delay : ℕ} :
    (if delay < CH_CFG_ST_TIMEDELTA then CH_CFG_ST_TIMEDELTA else delay) =
      max delay CH_CFG_ST_TIMEDELTA := by
  split <;> omega

variable {T : Type}

/-- What a step does to the deadlines, and which timers it calls. -/
def VTAct.meaning (d : Deadlines T) : VTAct T → List T × Deadlines T
  | .count => ([], d.count)
  | .set delay par => ([], d.add (d.now + max delay CH_CFG_ST_TIMEDELTA) par)
  | .interrupt => ([], d)
  | .tick => (d.due, d.rest)
  | .alarm => ([], d)

namespace Deadlines

/-- The earliest deadline. -/
def First (d : Deadlines T) (D : ℕ) : Prop := d.pending.head?.map Prod.fst = some D

theorem first_add_nil {d : Deadlines T} {t : ℕ} {par : T} (h : d.pending = []) :
    (d.add t par).First t := by
  rw [First, add, h]
  rfl

theorem First.add {d : Deadlines T} {D t : ℕ} {par : T} (h : d.First D) :
    (d.add t par).First (min t D) := by
  rw [First] at h
  obtain ⟨⟨D, p⟩, hx, rfl⟩ := Option.map_eq_some_iff.mp h
  obtain ⟨l, hl⟩ := List.head?_eq_some_iff.mp hx
  rw [First, Deadlines.add, hl]
  by_cases hlt : D < t
  · have he : earlier t (D, p) = true := decide_eq_true hlt
    rw [PrioQueue.insertPast_cons_of_pos he, min_eq_right hlt.le]
    rfl
  · have he : earlier t (D, p) = false := decide_eq_false hlt
    rw [PrioQueue.insertPast_cons_of_neg he, min_eq_left (Nat.le_of_not_lt hlt)]
    rfl

end Deadlines

namespace VirtualTimers

variable {v v' : VirtualTimers T} {d : Deadlines T} {L N A D : ℕ}

/-- Between a reading of the time, at `N`, and the setting of the alarm to `A`. -/
structure Setting (d : Deadlines T) (L N A : ℕ) : Prop where
  first : ∃ D, d.First D ∧ D ≤ A ∧ A ≤ D + 1 ∧ D ≤ L + LIMIT
  read : N ≤ d.now
  once : d.now ≤ N + 1
  ahead : N + 2 ≤ A

/-- The registers in each phase. In `armed` the alarm at `A` serves the first deadline; in
`tick` the one that raised the interrupt has gone by. -/
inductive InPhase (v : VirtualTimers T) (d : Deadlines T) (L : ℕ) : VTPhase → Prop where
  | idle : v.timers = [] → v.cc1ie = false → InPhase v d L .out
  | armed {A : ℕ} : (∃ D, d.First D ∧ D ≤ A ∧ A ≤ D + 1 ∧ D ≤ L + LIMIT) → v.cc1ie = true →
      v.ccr = A % TIME_WRAP → v.cc1if = decide (A ≤ d.now) → d.now ≤ A + LIMIT → InPhase v d L .out
  | tick {A : ℕ} : v.cc1ie = !v.timers.isEmpty → v.cc1if = false → v.ccr = A % TIME_WRAP →
      A ≤ d.now → d.now ≤ A + LIMIT → A ≤ L + LIMIT + 1 → InPhase v d L .tick
  | start {N A : ℕ} : Setting d L N A → L = N → v.cc1ie = false →
      InPhase v d L (.start (N % TIME_WRAP) (A % TIME_WRAP))
  | set {N A : ℕ} : Setting d L N A → N ≤ L + 2 * LIMIT + 1 → v.cc1ie = true → v.cc1if = false →
      v.ccr ≠ (N + 1) % TIME_WRAP → InPhase v d L (.set (N % TIME_WRAP) (A % TIME_WRAP))
  | rearm {N A : ℕ} : Setting d L N A → L = N → v.cc1ie = true → v.cc1if = false →
      v.ccr ≠ (N + 1) % TIME_WRAP → InPhase v d L (.rearm (N % TIME_WRAP) (A % TIME_WRAP))

/-- The deltas count from `L`. -/
structure Tracks (v : VirtualTimers T) (d : Deadlines T) (L : ℕ) : Prop where
  cnt : v.cnt = d.now % TIME_WRAP
  lasttime : v.lasttime = L % TIME_WRAP
  base : L ≤ d.now
  times : DeltaList.times L v.timers = d.pending
  within : ∀ x ∈ d.pending, x.1 ≤ d.now + LIMIT
  inPhase : InPhase v d L v.phase

/-- The timers hold the deadlines. -/
def Represents (v : VirtualTimers T) (d : Deadlines T) : Prop := ∃ L, Tracks v d L

theorem Represents.init : Represents (VirtualTimers.init (T := T)) Deadlines.init :=
  ⟨0, rfl, rfl, le_rfl, rfl, fun _ h => absurd h List.not_mem_nil, .idle rfl rfl⟩

namespace Tracks

theorem sorted (h : Tracks v d L) : Sorted d.pending := h.times ▸ DeltaList.times_sorted

theorem nil_iff (h : Tracks v d L) : v.timers = [] ↔ d.pending = [] := by
  rw [← h.times, DeltaList.times_eq_nil]

/-- The time from `lasttime` on is far below the range. -/
theorem span (h : Tracks v d L) : d.now ≤ L + 2 * LIMIT + 2 ∨ v.phase = .out ∧ v.timers = [] := by
  have hp := h.inPhase
  generalize v.phase = p at hp
  cases hp with
  | idle hl _ => exact .inr ⟨rfl, hl⟩
  | armed hfirst _ _ _ hlate =>
    obtain ⟨D, -, -, hA, hD⟩ := hfirst
    left; omega
  | tick _ _ _ _ hlate hA => left; omega
  | start hs hL => have := hs.once; left; omega
  | set hs hN => have := hs.once; left; omega
  | rearm hs hL => have := hs.once; left; omega

/-- What the functions read as the time from `lasttime` on, as long as a timer is set or they are
about it. -/
theorem reading (h : Tracks v d L) (hp : v.phase = .out → v.timers ≠ []) :
    chTimeDiffX v.lasttime v.cnt = d.now - L ∧ d.now - L ≤ 2 * LIMIT + 2 := by
  have hbase := h.base
  have hspan : d.now ≤ L + 2 * LIMIT + 2 := by
    rcases h.span with hspan | ⟨hout, hnil⟩
    · exact hspan
    · exact absurd hnil (hp hout)
  refine ⟨?_, by omega⟩
  unfold LIMIT at hspan
  rw [h.lasttime, h.cnt]
  exact chTimeDiffX_mod hbase (by unfold TIME_WRAP; omega)

end Tracks

/-! ### The counter -/

theorem Setting.count (h : Setting d L N A) (hN : d.now = N) : Setting d.count L N A where
  first := h.first
  read := h.read.trans (Nat.le_succ _)
  once := Nat.succ_le_succ hN.le
  ahead := h.ahead

/-- At most one tick passes before the alarm is set. -/
theorem Setting.now_eq (h : Setting d L N A) (hcnt : v.cnt = d.now % TIME_WRAP)
    (hmay : chTimeDiffX (N % TIME_WRAP) v.cnt + 1 < CH_CFG_ST_TIMEDELTA) : d.now = N := by
  have hread := h.read
  have honce := h.once
  rw [hcnt, chTimeDiffX_mod hread (by unfold TIME_WRAP; omega)] at hmay
  unfold CH_CFG_ST_TIMEDELTA at hmay
  omega

theorem cc1if_eq_of_ne (hif : v.cc1if = false) (hne : v.ccr ≠ (d.now + 1) % TIME_WRAP)
    (hcnt : v.cnt = d.now % TIME_WRAP) : v.count.cc1if = false := by
  have hbeq : (chTimeAddX v.cnt 1 == v.ccr) = false := by
    rw [hcnt, chTimeAddX_mod]
    exact beq_false_of_ne (Ne.symm hne)
  show (v.cc1if || chTimeAddX v.cnt 1 == v.ccr) = false
  rw [hif, hbeq, Bool.or_false]

/-- An alarm that has gone by is less than the range behind, and not the next tick. -/
theorem lt_of_late (hlate : d.now ≤ A + LIMIT) : d.now < A + TIME_WRAP :=
  hlate.trans_lt (Nat.add_lt_add_left (by decide) A)

theorem ccr_ne_of_late (hccr : v.ccr = A % TIME_WRAP) (hge : A ≤ d.now)
    (hlate : d.now ≤ A + LIMIT) : v.ccr ≠ (d.now + 1) % TIME_WRAP := by
  rw [hccr]
  intro heq
  have hnext : d.now + 1 < A + TIME_WRAP := by
    unfold TIME_WRAP
    unfold LIMIT at hlate
    omega
  have := eq_of_mod_eq (hge.trans (Nat.le_succ _)) hnext heq
  omega

/-- The counter raises the flag when it comes to the alarm. -/
theorem cc1if_count (hcnt : v.cnt = d.now % TIME_WRAP) (hccr : v.ccr = A % TIME_WRAP)
    (hif : v.cc1if = decide (A ≤ d.now)) (hA : A ≤ d.now + TIME_WRAP) :
    v.count.cc1if = decide (A ≤ d.now + 1) := by
  show (v.cc1if || chTimeAddX v.cnt 1 == v.ccr) = decide (A ≤ d.now + 1)
  rw [hif, hcnt, hccr, chTimeAddX_mod]
  rcases Nat.lt_or_ge d.now A with hlt | hge
  · have hbeq : ((d.now + 1) % TIME_WRAP == A % TIME_WRAP) = decide (A ≤ d.now + 1) := by
      rw [Bool.eq_iff_iff, beq_iff_eq, decide_eq_true_iff]
      constructor
      · intro heq
        exact (eq_of_mod_eq hlt (by omega) heq).ge
      · intro hle
        rw [Nat.le_antisymm hle hlt]
    rw [hbeq, decide_eq_false (Nat.not_le_of_lt hlt), Bool.false_or]
  · rw [decide_eq_true hge, decide_eq_true (hge.trans (Nat.le_succ _)), Bool.true_or]

theorem InPhase.count (h : Tracks v d L) (hmay : v.mayCount = true) :
    InPhase v.count d.count L v.phase := by
  have hp := h.inPhase
  have hcnt := h.cnt
  have hbase := h.base
  rw [mayCount] at hmay
  generalize v.phase = p at hp hmay
  cases hp with
  | idle hl hie => exact .idle hl hie
  | armed hfirst hie hccr hif hlate =>
    rename_i A
    obtain ⟨D, hD, hDA, hA, hDL⟩ := hfirst
    have hA' : A ≤ d.now + TIME_WRAP := by unfold TIME_WRAP; unfold LIMIT at hDL; omega
    refine .armed ⟨D, hD, hDA, hA, hDL⟩ hie hccr (cc1if_count hcnt hccr hif hA') ?_
    show d.now + 1 ≤ A + LIMIT
    rcases Nat.lt_or_ge d.now A with hlt | hge
    · omega
    · have hpend : v.pending = true := by rw [pending, hif, hie, decide_eq_true hge, Bool.and_true]
      have hdiff : chTimeDiffX v.ccr v.cnt < LIMIT := by simpa [hpend] using hmay
      rw [hccr, hcnt, chTimeDiffX_mod hge (lt_of_late hlate)] at hdiff
      omega
  | tick hie hif hccr hge hlate hA =>
    rename_i A
    have hdiff : chTimeDiffX v.ccr v.cnt < LIMIT := of_decide_eq_true hmay
    rw [hccr, hcnt, chTimeDiffX_mod hge (lt_of_late hlate)] at hdiff
    have hne := ccr_ne_of_late hccr hge hlate
    exact .tick hie (cc1if_eq_of_ne hif hne hcnt) hccr (hge.trans (Nat.le_succ _))
      (by show d.now + 1 ≤ A + LIMIT; omega) hA
  | start hs hL hie =>
    have hN := hs.now_eq hcnt (of_decide_eq_true hmay)
    exact .start (hs.count hN) hL hie
  | set hs hN hie hif hne =>
    have hnow := hs.now_eq hcnt (of_decide_eq_true hmay)
    exact .set (hs.count hnow) hN hie (cc1if_eq_of_ne hif (hnow ▸ hne) hcnt) hne
  | rearm hs hL hie hif hne =>
    have hnow := hs.now_eq hcnt (of_decide_eq_true hmay)
    exact .rearm (hs.count hnow) hL hie (cc1if_eq_of_ne hif (hnow ▸ hne) hcnt) hne

theorem Tracks.count (h : Tracks v d L) (hmay : v.mayCount = true) :
    Tracks v.count d.count L where
  cnt := by
    show chTimeAddX v.cnt 1 = (d.now + 1) % TIME_WRAP
    rw [h.cnt, chTimeAddX_mod]
  lasttime := h.lasttime
  base := h.base.trans (Nat.le_succ _)
  times := h.times
  within := fun x hx => (h.within x hx).trans (by show d.now + LIMIT ≤ d.now + 1 + LIMIT; omega)
  inPhase := InPhase.count h hmay

/-! ### A timer is set -/

theorem chVTDoSetI_nil {delay : ℕ} {par : T} (h : 0 < delay) (hl : v.timers = []) :
    v.chVTDoSetI delay par = some { v with
      lasttime := v.cnt
      timers := [(max delay CH_CFG_ST_TIMEDELTA, par)]
      phase := .start v.cnt (chTimeAddX v.cnt (max delay CH_CFG_ST_TIMEDELTA)) } := by
  rw [chVTDoSetI, if_neg h.ne', delay_raised, hl]

theorem chVTDoSetI_cons {delay first n : ℕ} {par p : T} {rest : List (ℕ × T)} (h : 0 < delay)
    (hl : v.timers = (first, p) :: rest) (hn : chTimeDiffX v.lasttime v.cnt = n)
    (hfit : n + max delay CH_CFG_ST_TIMEDELTA < TIME_WRAP) :
    v.chVTDoSetI delay par = some { v with
      timers := DeltaList.insert (n + max delay CH_CFG_ST_TIMEDELTA) par v.timers
      phase := if n + max delay CH_CFG_ST_TIMEDELTA < first then
          .set v.cnt (chTimeAddX v.lasttime (n + max delay CH_CFG_ST_TIMEDELTA))
        else .out } := by
  rw [chVTDoSetI, if_neg h.ne', delay_raised, hl]
  have hge : ¬ n + max delay CH_CFG_ST_TIMEDELTA < n := by omega
  simp only [hn, Nat.mod_eq_of_lt hfit, if_neg hge]

theorem within_add {m : ℕ} {par : T} (h : ∀ x ∈ d.pending, x.1 ≤ d.now + LIMIT) (hm : m ≤ LIMIT) :
    ∀ x ∈ (d.add (d.now + m) par).pending, x.1 ≤ d.now + LIMIT := by
  intro x hx
  rcases mem_add.mp hx with rfl | hx
  · exact Nat.add_le_add_left hm _
  · exact h x hx

theorem max_le_limit {delay : ℕ} (h : delay ≤ LIMIT) : max delay CH_CFG_ST_TIMEDELTA ≤ LIMIT :=
  max_le h (by decide)

/-- The first timer starts the alarm, and the list counts from its setting. -/
theorem Tracks.set_nil {m : ℕ} (h : Tracks v d L) (hl : v.timers = []) (hie : v.cc1ie = false)
    (hm : CH_CFG_ST_TIMEDELTA ≤ m) (hle : m ≤ LIMIT) (par : T) :
    Tracks { v with
      lasttime := v.cnt
      timers := [(m, par)]
      phase := .start v.cnt (chTimeAddX v.cnt m) } (d.add (d.now + m) par) d.now where
  cnt := h.cnt
  lasttime := h.cnt
  base := le_rfl
  times := by
    rw [add, h.nil_iff.mp hl]
    rfl
  within := within_add h.within hle
  inPhase := by
    have hs : Setting (d.add (d.now + m) par) d.now d.now (d.now + m) :=
      { first := ⟨_, first_add_nil (h.nil_iff.mp hl), le_rfl, Nat.le_succ _, by omega⟩
        read := le_rfl
        once := Nat.le_succ _
        ahead := Nat.add_le_add_left hm _ }
    rw [h.cnt, chTimeAddX_mod]
    exact .start hs rfl hie

/-- What is first in the list is first of the deadlines. -/
theorem Tracks.first {first : ℕ} {p : T} {rest : List (ℕ × T)} (h : Tracks v d L)
    (hl : v.timers = (first, p) :: rest) : d.First (L + first) := by
  rw [First, ← h.times, hl]
  rfl

theorem Tracks.first_le {first : ℕ} {p : T} {rest : List (ℕ × T)} (h : Tracks v d L)
    (hl : v.timers = (first, p) :: rest) : L + first ≤ d.now + LIMIT := by
  obtain ⟨x, hx, hxD⟩ := Option.map_eq_some_iff.mp (h.first hl)
  exact hxD ▸ h.within x (List.mem_of_head? hx)

theorem First.unique {D' : ℕ} (h : d.First D) (h' : d.First D') : D = D' :=
  Option.some.inj (h.symm.trans h')

/-- A timer behind the first leaves the alarm; a new first one sets it, and its time has not
come. -/
theorem Tracks.set_cons {first m n : ℕ} {p par : T} {rest : List (ℕ × T)} (h : Tracks v d L)
    (hp : InPhase v d L .out) (hl : v.timers = (first, p) :: rest) (hn : L + n = d.now)
    (hm : CH_CFG_ST_TIMEDELTA ≤ m) (hle : m ≤ LIMIT) :
    Tracks { v with
      timers := DeltaList.insert (n + m) par v.timers
      phase := if n + m < first then .set v.cnt (chTimeAddX v.lasttime (n + m)) else .out }
      (d.add (d.now + m) par) L where
  cnt := h.cnt
  lasttime := h.lasttime
  base := h.base
  times := by
    have hsum : L + (n + m) = d.now + m := by omega
    show DeltaList.times L (DeltaList.insert (n + m) par v.timers) = _
    rw [DeltaList.times_insert, h.times, hsum]
    rfl
  within := within_add h.within hle
  inPhase := by
    cases hp with
    | idle hnil => rw [hl] at hnil; cases hnil
    | armed hfirst hie hccr hif hlate =>
      rename_i A
      obtain ⟨D, hD, hDA, hA, hDL⟩ := hfirst
      obtain rfl := First.unique hD (h.first hl)
      have hbase := h.base
      have hadd : (d.add (d.now + m) par).First (min (d.now + m) (L + first)) := First.add hD
      by_cases hlt : n + m < first
      · have hmin : min (d.now + m) (L + first) = d.now + m := min_eq_left (by omega)
        rw [hmin] at hadd
        have hs : Setting (d.add (d.now + m) par) L d.now (d.now + m) :=
          { first := ⟨_, hadd, le_rfl, Nat.le_succ _, by omega⟩
            read := le_rfl
            once := Nat.le_succ _
            ahead := Nat.add_le_add_left hm _ }
        have hnot : ¬ A ≤ d.now := by omega
        have hne : v.ccr ≠ (d.now + 1) % TIME_WRAP := by
          rw [hccr]
          intro heq
          have := eq_of_mod_eq (by omega) (by unfold TIME_WRAP; unfold LIMIT at hDL; omega) heq.symm
          unfold CH_CFG_ST_TIMEDELTA at hm
          omega
        have hsum : L + (n + m) = d.now + m := by omega
        rw [if_pos hlt, h.cnt, h.lasttime, chTimeAddX_mod, hsum]
        exact .set hs (by omega) hie (hif.trans (decide_eq_false hnot)) hne
      · have hmin : min (d.now + m) (L + first) = L + first := min_eq_right (by omega)
        rw [hmin] at hadd
        rw [if_neg hlt]
        exact .armed ⟨_, hadd, hDA, hA, hDL⟩ hie hccr hif hlate

theorem Represents.set {delay : ℕ} (h : Represents v d) (hout : v.phase = .out) (hpos : 0 < delay)
    (hle : delay ≤ LIMIT) (par : T) : ∃ v', v.chVTDoSetI delay par = some v' ∧
      Represents v' (d.add (d.now + max delay CH_CFG_ST_TIMEDELTA) par) := by
  obtain ⟨L, h⟩ := h
  have hm : CH_CFG_ST_TIMEDELTA ≤ max delay CH_CFG_ST_TIMEDELTA := le_max_right _ _
  have hp := h.inPhase
  rw [hout] at hp
  cases hl : v.timers with
  | nil =>
    have hie : v.cc1ie = false := by
      cases hp with
      | idle _ hie => exact hie
      | armed hfirst =>
        obtain ⟨D, hD, -⟩ := hfirst
        rw [First, h.nil_iff.mp hl] at hD
        cases hD
    exact ⟨_, chVTDoSetI_nil hpos hl, _, h.set_nil hl hie hm (max_le_limit hle) par⟩
  | cons e rest =>
    obtain ⟨first, p⟩ := e
    have hbase := h.base
    obtain ⟨hdiff, hspan⟩ := h.reading fun _ => hl ▸ List.cons_ne_nil _ _
    have hle' := max_le_limit hle
    have hfit : d.now - L + max delay CH_CFG_ST_TIMEDELTA < TIME_WRAP := by
      unfold TIME_WRAP
      unfold LIMIT at hspan hle'
      omega
    exact ⟨_, chVTDoSetI_cons hpos hl hdiff hfit, L,
      h.set_cons hp hl (by omega) hm hle'⟩

/-! ### The interrupt -/

/-- No time of the list is as large as the delta of its header. -/
theorem consume_eq {n : ℕ} {l : List (ℕ × T)} (hn : n < TIME_WRAP - 1) :
    consume (L % TIME_WRAP) n l = some ((DeltaList.expire n l).1,
      (L + (n - (DeltaList.expire n l).2.1)) % TIME_WRAP, (DeltaList.expire n l).2) := by
  induction l generalizing L n with
  | nil =>
    rw [consume, if_neg hn.ne, DeltaList.expire, Nat.sub_self, Nat.add_zero]
  | cons e l ih =>
    obtain ⟨delta, par⟩ := e
    rw [consume, DeltaList.expire]
    by_cases h : delta ≤ n
    · have hrest := (DeltaList.expire_spec (t := 0) (n := n - delta) (l := l)).1
      have hsum : L + delta + (n - delta - (DeltaList.expire (n - delta) l).2.1) =
          L + (n - (DeltaList.expire (n - delta) l).2.1) := by omega
      rw [if_pos h, if_pos h, chTimeAddX_mod, ih ((Nat.sub_le n delta).trans_lt hn), Option.map_some,
        hsum]
    · rw [if_neg h, if_neg h, Nat.sub_self, Nat.add_zero]

theorem due_nil_of_expire {n : ℕ} (h : (DeltaList.expire n v.timers).1 = []) :
    DeltaList.expire n v.timers = ([], n, v.timers) := by
  cases hl : v.timers with
  | nil => rfl
  | cons e l =>
    obtain ⟨delta, par⟩ := e
    by_cases hle : delta ≤ n
    · rw [hl, DeltaList.expire, if_pos hle] at h
      cases h
    · rw [DeltaList.expire, if_neg hle]

theorem Tracks.due_eq (h : Tracks v d L) :
    (DeltaList.expire (d.now - L) v.timers).1 = d.due := by
  have hsum : L + (d.now - L) = d.now := Nat.add_sub_cancel' h.base
  have hspec := (DeltaList.expire_spec (t := L) (n := d.now - L) (l := v.timers)).2.1
  rw [hspec, hsum, h.times]
  rfl

theorem Tracks.rest_eq (h : Tracks v d L) :
    DeltaList.times (L + (d.now - L - (DeltaList.expire (d.now - L) v.timers).2.1))
      (DeltaList.expire (d.now - L) v.timers).2.2 = d.rest.pending := by
  have hsum : L + (d.now - L) = d.now := Nat.add_sub_cancel' h.base
  have hspec := (DeltaList.expire_spec (t := L) (n := d.now - L) (l := v.timers)).2.2
  rw [hspec, hsum, h.times]
  rfl

/-- A turn of the loop that calls timers. -/
theorem Tracks.consume (h : Tracks v d L) (hp : v.phase = .tick)
    (hdue : (DeltaList.expire (d.now - L) v.timers).1.isEmpty = false) :
    Tracks { v with
      timers := (DeltaList.expire (d.now - L) v.timers).2.2
      lasttime := (L + (d.now - L - (DeltaList.expire (d.now - L) v.timers).2.1)) % TIME_WRAP
      cc1ie := v.cc1ie && !(DeltaList.expire (d.now - L) v.timers).2.2.isEmpty } d.rest
      (L + (d.now - L - (DeltaList.expire (d.now - L) v.timers).2.1)) where
  cnt := h.cnt
  lasttime := rfl
  base := by
    have hbase := h.base
    show _ ≤ d.now
    omega
  times := h.rest_eq
  within := fun x hx => h.within x (mem_rest h.sorted |>.mp hx).1
  inPhase := by
    have hphase := h.inPhase
    rw [hp] at hphase
    show InPhase _ _ _ v.phase
    rw [hp]
    cases hphase with
    | tick hie hif hccr hge hlate hA =>
      have hne : v.timers.isEmpty = false := by
        cases hl : v.timers with
        | nil => rw [hl] at hdue; cases hdue
        | cons => rfl
      refine .tick ?_ hif hccr hge hlate (by omega)
      show (v.cc1ie && _) = _
      rw [hie, hne, Bool.not_false, Bool.true_and]

/-- The loop ends, and the next alarm is at the first deadline or shortly behind it. -/
theorem Tracks.rearm {first : ℕ} {par : T} {rest : List (ℕ × T)} (h : Tracks v d L)
    (hp : v.phase = .tick) (hl : v.timers = (first, par) :: rest) (hlt : d.now - L < first) :
    Tracks { v with
      timers := (first - (d.now - L), par) :: rest
      lasttime := d.now % TIME_WRAP
      phase := .rearm (d.now % TIME_WRAP)
        ((d.now + max (first - (d.now - L)) CH_CFG_ST_TIMEDELTA) % TIME_WRAP) } d d.now where
  cnt := h.cnt
  lasttime := rfl
  base := le_rfl
  times := by
    have hrebase := DeltaList.times_rebase (t := L) (n := d.now - L) (l := v.timers)
      (by rw [hl]; rintro _ ⟨⟩; exact hlt.le)
    rw [Nat.add_sub_cancel' h.base, h.times, hl] at hrebase
    exact hrebase
  within := h.within
  inPhase := by
    have hfirst := h.first hl
    have hbase := h.base
    have hwithin := h.first_le hl
    have hphase := h.inPhase
    rw [hp] at hphase
    cases hphase with
    | tick hie hif hccr hge hlate hA =>
      have hne := ccr_ne_of_late hccr hge hlate
      have hie' : v.cc1ie = true := by rw [hie, hl]; rfl
      have hs : Setting d d.now d.now (d.now + max (first - (d.now - L)) CH_CFG_ST_TIMEDELTA) :=
        { first := ⟨_, hfirst, by omega, by unfold CH_CFG_ST_TIMEDELTA; omega, hwithin⟩
          read := le_rfl
          once := Nat.le_succ _
          ahead := Nat.add_le_add_left (le_max_right _ _) _ }
      exact .rearm hs rfl hie' hif hne

theorem Tracks.rearm_eq {first : ℕ} {par : T} {rest : List (ℕ × T)} (h : Tracks v d L)
    (hl : v.timers = (first, par) :: rest) (hlt : d.now - L < first) :
    v.rearm v.cnt (d.now - L) = { v with
      timers := (first - (d.now - L), par) :: rest
      lasttime := d.now % TIME_WRAP
      phase := .rearm (d.now % TIME_WRAP)
        ((d.now + max (first - (d.now - L)) CH_CFG_ST_TIMEDELTA) % TIME_WRAP) } := by
  have hbase := h.base
  have hwithin := h.first_le hl
  have hlast : chTimeAddX v.lasttime (d.now - L) = d.now % TIME_WRAP := by
    rw [h.lasttime, chTimeAddX_mod, Nat.add_sub_cancel' hbase]
  have hzero : chTimeDiffX (d.now % TIME_WRAP) (d.now % TIME_WRAP) = 0 := by
    rw [chTimeDiffX_mod le_rfl (by unfold TIME_WRAP; omega), Nat.sub_self]
  have hsmall : first - (d.now - L) < TIME_WRAP := by
    unfold TIME_WRAP
    unfold LIMIT at hwithin
    omega
  rw [VirtualTimers.rearm, hl]
  simp only [hlast, h.cnt, hzero, Nat.sub_zero, Nat.add_mod_right, Nat.mod_eq_of_lt hsmall,
    delay_raised, chTimeAddX_mod]

/-- No timer is left: the alarm was stopped when the last one was called. -/
theorem Tracks.rearm_nil (h : Tracks v d L) (hp : v.phase = .tick) (hl : v.timers = []) :
    Tracks { v with phase := .out } d L ∧ v.pending = false := by
  have hphase := h.inPhase
  rw [hp] at hphase
  cases hphase with
  | tick hie hif =>
    rw [hl] at hie
    refine ⟨⟨h.cnt, h.lasttime, h.base, h.times, h.within, .idle hl hie⟩, ?_⟩
    rw [pending, hif, Bool.false_and]

/-- If nothing is due, nothing is taken from the deadlines. -/
theorem Tracks.rest_eq_self (h : Tracks v d L)
    (hnil : (DeltaList.expire (d.now - L) v.timers).1 = []) : d.rest = d := by
  have hrest := h.rest_eq
  rw [due_nil_of_expire hnil, Nat.sub_self, Nat.add_zero, h.times] at hrest
  exact congrArg (Deadlines.mk d.now) hrest.symm

/-- A turn calls what is due; the turn that calls nothing ends the loop. -/
theorem Represents.tick (h : Represents v d) (hp : v.phase = .tick) :
    ∃ v', v.chVTDoTickI = some (d.due, v') ∧ Represents v' d.rest ∧
      (v'.phase = .tick ↔ d.due ≠ []) ∧ (v'.phase = .out → v'.pending = false) := by
  obtain ⟨L, h⟩ := h
  obtain ⟨hread, hspan⟩ := h.reading fun hout => by rw [hp] at hout; cases hout
  have hfit : d.now - L < TIME_WRAP - 1 := hspan.trans_lt (by decide)
  have hcons := consume_eq (L := L) (l := v.timers) hfit
  rw [← h.lasttime] at hcons
  rw [chVTDoTickI, hread, hcons]
  cases hdue : (DeltaList.expire (d.now - L) v.timers).1.isEmpty with
  | false =>
    have hne : d.due ≠ [] := by
      rw [← h.due_eq]
      exact List.isEmpty_eq_false_iff.mp hdue
    refine ⟨_, ?_, ⟨_, h.consume hp hdue⟩, iff_of_true hp hne, ?_⟩
    · rw [Option.map_some, hdue, if_neg Bool.false_ne_true, h.due_eq]
    · intro hout
      rw [show v.phase = .out from hout] at hp
      cases hp
  | true =>
    have hnil : (DeltaList.expire (d.now - L) v.timers).1 = [] := List.isEmpty_iff.mp hdue
    have hdnil : d.due = [] := h.due_eq.symm.trans hnil
    refine ⟨v.rearm v.cnt (d.now - L), ?_, ?_⟩
    · rw [Option.map_some, if_pos hdue, hdnil]
    rw [h.rest_eq_self hnil, hdnil]
    cases hl : v.timers with
    | nil =>
      have hout : v.rearm v.cnt (d.now - L) = { v with phase := .out } := by
        rw [VirtualTimers.rearm, hl]
      obtain ⟨htracks, hpending⟩ := h.rearm_nil hp hl
      rw [hout]
      exact ⟨⟨L, htracks⟩, iff_of_false nofun (fun hne => hne rfl), fun _ => hpending⟩
    | cons e rest =>
      obtain ⟨first, par⟩ := e
      have hlt : d.now - L < first := by
        have hhead := DeltaList.expire_head (n := d.now - L) (l := v.timers)
        rw [due_nil_of_expire hnil, hl] at hhead
        exact hhead _ rfl
      rw [h.rearm_eq hl hlt]
      exact ⟨⟨_, h.rearm hp hl hlt⟩, iff_of_false nofun (fun hne => hne rfl), nofun⟩

theorem Tracks.ne_nil (h : Tracks v d L) (hD : d.First D) : v.timers.isEmpty = false := by
  rw [List.isEmpty_eq_false_iff]
  intro hnil
  rw [First, h.nil_iff.mp hnil] at hD
  cases hD

/-- Only an alarm that has gone by interrupts. -/
theorem Represents.interrupt (h : Represents v d) (hout : v.phase = .out) (hpend : v.pending = true) :
    Represents { v with cc1if := false, phase := .tick } d := by
  obtain ⟨L, h⟩ := h
  rw [pending, Bool.and_eq_true] at hpend
  have hp := h.inPhase
  rw [hout] at hp
  cases hp with
  | idle _ hie => rw [hie] at hpend; cases hpend.2
  | armed hfirst hie hccr hif hlate =>
    obtain ⟨D, hD, hDA, hA, hDL⟩ := hfirst
    have hge := of_decide_eq_true (hif.symm.trans hpend.1)
    have hne := h.ne_nil hD
    refine ⟨L, h.cnt, h.lasttime, h.base, h.times, h.within, .tick ?_ rfl hccr hge hlate (by omega)⟩
    show v.cc1ie = !v.timers.isEmpty
    rw [hne, hie]
    rfl

/-- The alarm is set in time. -/
theorem Setting.armed (hs : Setting d L N A) (hie : v.cc1ie = true) (hif : v.cc1if = false)
    (hccr : v.ccr = A % TIME_WRAP) : InPhase v d L .out := by
  have hahead := hs.ahead
  have honce := hs.once
  have hnot : ¬ A ≤ d.now := by omega
  exact .armed hs.first hie hccr (hif.trans (decide_eq_false hnot).symm) (by omega)

/-- And the time read again is not behind it. -/
theorem Setting.not_exceeded (hs : Setting d L N A) (hL : L = N) :
    chTimeDiffX (L % TIME_WRAP) (d.now % TIME_WRAP) ≤
      chTimeDiffX (L % TIME_WRAP) (A % TIME_WRAP) := by
  have hread := hs.read
  have honce := hs.once
  have hahead := hs.ahead
  obtain ⟨D, -, -, hA, hD⟩ := hs.first
  rw [chTimeDiffX_mod (by omega) (by unfold TIME_WRAP; omega),
    chTimeDiffX_mod (by omega) (by unfold TIME_WRAP; unfold LIMIT at hD; omega)]
  omega

theorem Represents.alarm (h : Represents v d) (hout : v.phase ≠ .out) (htick : v.phase ≠ .tick) :
    ∃ v', v.alarm = some v' ∧ Represents v' d ∧ v'.phase = .out ∧ v'.pending = false := by
  obtain ⟨L, h⟩ := h
  have hp := h.inPhase
  have hpending (hif : v.cc1if = false) : (v.cc1if && v.cc1ie) = false := by
    rw [hif, Bool.false_and]
  rw [VirtualTimers.alarm]
  generalize v.phase = p at hp hout htick
  cases hp with
  | idle => exact absurd rfl hout
  | armed => exact absurd rfl hout
  | tick => exact absurd rfl htick
  | start hs hL hie =>
    have hbool : ¬ v.cc1ie = true := by rw [hie]; exact Bool.false_ne_true
    exact ⟨_, if_neg hbool, ⟨L, h.cnt, h.lasttime, h.base, h.times, h.within,
      hs.armed rfl rfl rfl⟩, rfl, rfl⟩
  | set hs _ hie hif _ =>
    exact ⟨_, if_pos hie, ⟨L, h.cnt, h.lasttime, h.base, h.times, h.within,
      hs.armed hie hif rfl⟩, rfl, hpending hif⟩
  | rearm hs hL hie hif _ =>
    rename_i N A
    have hle := hs.not_exceeded hL
    rw [← h.lasttime, ← h.cnt] at hle
    refine ⟨{ v with ccr := _ % TIME_WRAP, phase := .out }, ?_, ⟨L, h.cnt, h.lasttime, h.base,
      h.times, h.within, hs.armed hie hif rfl⟩, rfl, hpending hif⟩
    show (stSetAlarm _ _).filter _ = _
    rw [stSetAlarm, if_pos hie, Option.filter_some, if_pos (decide_eq_true hle)]

/-! ### Steps -/

/-- Nothing that can happen fails, and it calls the timers that are due. -/
theorem Represents.act {a : VTAct T} (h : Represents v d) (hen : v.enabled a = true) :
    ∃ v', v.act a = some ((a.meaning d).1, v') ∧ Represents v' (a.meaning d).2 := by
  cases a with
  | count =>
    obtain ⟨L, h⟩ := h
    exact ⟨_, rfl, L, h.count hen⟩
  | set delay par =>
    rw [enabled, Bool.and_eq_true, beq_iff_eq, decide_eq_true_iff] at hen
    obtain ⟨v', hset, h'⟩ := h.set hen.1 hen.2.1 hen.2.2 par
    refine ⟨v', ?_, h'⟩
    rw [VirtualTimers.act, hset]
    rfl
  | interrupt =>
    rw [enabled, Bool.and_eq_true, beq_iff_eq] at hen
    exact ⟨_, rfl, h.interrupt hen.1 hen.2⟩
  | tick =>
    obtain ⟨v', htick, h', -⟩ := h.tick (beq_iff_eq.mp hen)
    exact ⟨v', htick, h'⟩
  | alarm =>
    rw [enabled, Bool.and_eq_true, bne_iff_ne, bne_iff_ne] at hen
    obtain ⟨v', halarm, h', -⟩ := h.alarm hen.1 hen.2
    refine ⟨v', ?_, h'⟩
    rw [VirtualTimers.act, halarm]
    rfl

theorem Represents.step {a : VTAct T × List T} (h : Represents v d) (hs : VTStep v a v') :
    a.2 = (a.1.meaning d).1 ∧ Represents v' (a.1.meaning d).2 := by
  obtain ⟨v'', hact, h'⟩ := h.act hs.1
  obtain ⟨heq, rfl⟩ := Prod.mk.inj (Option.some.inj (hs.2.symm.trans hact))
  exact ⟨heq, h'⟩

/-- An interrupt is pending once the first deadline has gone by, and not before it has come. -/
theorem Represents.pending_iff (h : Represents v d) (hout : v.phase = .out) :
    (v.pending = true → ∃ x ∈ d.pending, x.1 ≤ d.now) ∧
      ((∃ x ∈ d.pending, x.1 < d.now) → v.pending = true) := by
  obtain ⟨L, h⟩ := h
  have hsorted := h.sorted
  have hp := h.inPhase
  rw [hout] at hp
  rw [pending]
  cases hp with
  | idle hl hie =>
    have hnil := h.nil_iff.mp hl
    rw [hie, hnil, Bool.and_false]
    exact ⟨fun hf => absurd hf Bool.false_ne_true, fun ⟨x, hx, _⟩ => absurd hx List.not_mem_nil⟩
  | armed hfirst hie hccr hif hlate =>
    obtain ⟨D, hD, hDA, hA, hDL⟩ := hfirst
    obtain ⟨x, hx, rfl⟩ := Option.map_eq_some_iff.mp hD
    rw [hie, hif, Bool.and_true, decide_eq_true_iff]
    constructor
    · intro hle
      exact ⟨x, List.mem_of_head? hx, hDA.trans hle⟩
    · rintro ⟨y, hy, hlt⟩
      obtain ⟨l, hl⟩ := List.head?_eq_some_iff.mp hx
      rw [hl] at hy hsorted
      have hxy : x.1 ≤ y.1 := by
        rcases List.mem_cons.mp hy with rfl | hy
        · exact le_rfl
        · exact (List.pairwise_cons.mp hsorted).1 y hy
      omega

end VirtualTimers

end Stmdsp
