import Stmdsp.Model.TimedThreads
import Stmdsp.Proofs.Switching
import Stmdsp.Proofs.Timeliness
import Stmdsp.Proofs.Wakeups

/-! The threads with their timers take the same steps as the threads whose sleep ends at any
time: a thread sleeps exactly while its timer is set, and the interrupt that calls several
timers is several wakeups. -/

namespace Stmdsp

open Kernel

/-! ### Who sleeps -/

section Sleepers

variable {b : Thread → Option TState} {t t' : Thread} {v : Option TState}

theorem sleeping_update (hb : b t ≠ some .CH_STATE_SLEEPING) (hv : v ≠ some .CH_STATE_SLEEPING) :
    Function.update b t v t' = some .CH_STATE_SLEEPING ↔ b t' = some .CH_STATE_SLEEPING := by
  by_cases heq : t' = t
  · rw [heq, Function.update_self]
    exact iff_of_false hv hb
  · rw [Function.update_of_ne heq]

namespace OS

variable {k : Layout} {o o' : OS} {a : OSAct}

theorem Inv.not_sleeping (h : o.Inv) (ht : .CH_STATE_SLEEPING ∉ t.waits) :
    o.kernel.blocked t ≠ some .CH_STATE_SLEEPING := fun hb => ht (h.population.waits _ _ hb)

theorem Inv.current_not_sleeping (h : o.Inv) (hcur : o.kernel.current = t) :
    o.kernel.blocked t ≠ some .CH_STATE_SLEEPING := by
  rw [h.blocked_current hcur]
  nofun

/-- Only its own sleep and its timer change whether a thread sleeps. -/
theorem Inv.sleeping_kept (h : o.Inv) (hs : SysInv o.sys) (he : o.enabled k a = true)
    (ha : a.untimed = true) : ∃ o', o.Advance k a o' ∧ ∀ t,
      o'.kernel.blocked t = some .CH_STATE_SLEEPING ↔ o.kernel.blocked t = some .CH_STATE_SLEEPING := by
  have hmonitor : o.kernel.blocked .monitor ≠ some .CH_STATE_SLEEPING :=
    h.not_sleeping (by decide)
  have hrunner : o.kernel.blocked .runner ≠ some .CH_STATE_SLEEPING := h.not_sleeping (by decide)
  cases a with
  | create =>
    cases hl : o.toCreate with
    | nil => simp [enabled, hl] at he
    | cons tp rest =>
      obtain ⟨o', hadv, -, hb⟩ := h.create hl
      have hnew : o.kernel.blocked tp = some .CH_STATE_WTSTART :=
        (h.population.created tp).mp (hl ▸ List.mem_cons_self)
      exact ⟨o', hadv, fun t => hb ▸ sleeping_update (by rw [hnew]; decide) (by decide)⟩
  | exit =>
    obtain ⟨o', hadv, -, hb⟩ := h.exit he
    exact ⟨o', hadv, fun t => hb ▸ sleeping_update (h.not_sleeping (by decide)) (by decide)⟩
  | sys a =>
    by_cases hadc : ∃ capture, a = .adc capture
    · obtain ⟨capture, rfl⟩ := hadc
      obtain ⟨o', hadv, hb⟩ := h.adc hs he
      refine ⟨o', hadv, fun t => ?_⟩
      by_cases ht : t = .monitor
      · rw [ht]
        exact iff_of_false (hadv.inv.not_sleeping (by decide)) hmonitor
      · rw [hb t ht]
    · obtain ⟨o', hadv, hkernel⟩ := h.work hs (not_exists.mp hadc) he
      exact ⟨o', hadv, fun t => by rw [hkernel]⟩
  | fetch =>
    obtain ⟨o', hadv, -, hb⟩ := h.fetch hs he
    exact ⟨o', hadv, fun t => by rw [hb]⟩
  | await =>
    obtain ⟨o', hadv, -, hb⟩ := h.await he
    exact ⟨o', hadv, fun t => hb ▸ sleeping_update hmonitor (by decide)⟩
  | send =>
    obtain ⟨o', hadv, -, hb⟩ := h.send he
    have hmonitor' : Function.update o.kernel.blocked .runner none .monitor ≠
        some .CH_STATE_SLEEPING := hmonitor
    refine ⟨o', hadv, fun t => ?_⟩
    rw [hb]
    exact Iff.trans (sleeping_update hmonitor' (by decide)) (sleeping_update hrunner (by decide))
  | wait =>
    obtain ⟨o', hadv, -, hb⟩ := h.wait he
    exact ⟨o', hadv, fun t => hb ▸ sleeping_update hrunner (by decide)⟩
  | receive =>
    obtain ⟨o', hadv, -, hb⟩ := h.receive he
    exact ⟨o', hadv, fun t => hb ▸ sleeping_update hmonitor (by decide)⟩
  | sleep => cases ha
  | timer => cases ha
  | block =>
    obtain ⟨o', hadv, -, hb⟩ := h.block he
    have hcur : o.kernel.current = .comm := beq_iff_eq.mp (Bool.and_eq_true_iff.mp he).2
    exact ⟨o', hadv, fun t => hb ▸ sleeping_update (h.current_not_sleeping hcur) (by decide)⟩
  | usb msg =>
    obtain ⟨o', hadv, -, hb⟩ := h.usb he
    have hcomm : o.kernel.blocked .comm = some .CH_STATE_QUEUED := by
      by_contra hne
      simp [enabled, h.serial.trans (if_neg hne)] at he
    exact ⟨o', hadv, fun t => hb ▸ sleeping_update (by rw [hcomm]; decide) (by decide)⟩

/-- Who sleeps is the command thread or the LED thread. -/
theorem Inv.sleeper (h : o.Inv) (hb : o.kernel.blocked t = some .CH_STATE_SLEEPING) :
    t = .comm ∨ t = .led := by
  have hwaits := h.population.waits _ _ hb
  cases t with
  | comm => exact .inl rfl
  | led => exact .inr rfl
  | idle | main | monitor | runner => exact absurd hwaits (by decide)

end OS

end Sleepers

/-! ### The wakeups of an interrupt -/

namespace OS

variable {k : Layout} {o o' : OS} {kernel : Kernel Thread Msg} {tp : Thread}

/-- The kernel within an interrupt: its end leaves the kernel of `o`. -/
structure Within (kernel : Kernel Thread Msg) (o : OS) : Prop where
  consistent : kernel.Consistent Thread.prio
  reschedule : kernel.chSchRescheduleS Thread.prio = some o.kernel

theorem Within.blocked (h : Within kernel o) : o.kernel.blocked = kernel.blocked := by
  obtain ⟨k', hk', hr⟩ := chSchRescheduleS_spec h.consistent
  obtain rfl := Option.some.inj (hk'.symm.trans h.reschedule)
  exact hr.blocked

theorem Inv.within (h : o.Inv) : Within o.kernel o :=
  ⟨h.consistent, reschedule_eq_self h.settled.highest⟩

/-- One wakeup in the interrupt is one interrupt that wakes. -/
theorem Within.wakeup (hw : Within kernel o) (h : o.Inv) (halive : o.sys.dead = false)
    (hb : o.kernel.blocked tp = some .CH_STATE_SLEEPING) :
    ∃ kernel' o', kernel.wakeup Thread.prio tp = some kernel' ∧ Within kernel' o' ∧
      OSStep k o (.timer tp) o' ∧ o'.Inv ∧ o' = { o with kernel := o'.kernel } ∧
      o'.kernel.blocked = Function.update o.kernel.blocked tp none := by
  have hb' : kernel.blocked tp = some .CH_STATE_SLEEPING := hw.blocked ▸ hb
  have he : o.enabled k (.timer tp) = true := by
    have hstate : o.kernel.state tp = .CH_STATE_SLEEPING := (blocked_eq_some hb).1
    rcases h.sleeper hb with rfl | rfl <;> simp [enabled, halive, hstate]
  obtain ⟨o', hadv, -, hblocked⟩ := h.timer he
  have hact := hadv.act
  simp only [act, wakeup_eq hb, Option.bind_eq_bind, Option.bind_some, Option.pure_def] at hact
  obtain ⟨k', hk', heq⟩ := Option.bind_eq_some_iff.mp hact
  obtain rfl := Option.some.inj heq
  refine ⟨_, _, wakeup_eq hb', ⟨(woken_blocked hw.consistent hb').1, ?_⟩, ⟨he, hadv.act⟩, hadv.inv,
    rfl, hblocked⟩
  rw [woken_reschedule hw.consistent hb' hw.reschedule, hk']

/-- All the wakeups of a turn of the loop. -/
theorem Within.wakeups {called : List Thread} (hw : Within kernel o) (h : o.Inv)
    (halive : o.sys.dead = false) (hnodup : called.Nodup)
    (hb : ∀ tp ∈ called, o.kernel.blocked tp = some .CH_STATE_SLEEPING) :
    ∃ kernel' o' tr, TimedOS.wakeups kernel called = some kernel' ∧ Within kernel' o' ∧
      Run (OSStep k) o tr o' ∧ (tr.flatMap fun p => p.2.data) = [] ∧ o'.Inv ∧
      o' = { o with kernel := o'.kernel } ∧
      ∀ t, o'.kernel.blocked t = some .CH_STATE_SLEEPING ↔
        o.kernel.blocked t = some .CH_STATE_SLEEPING ∧ t ∉ called := by
  induction called generalizing kernel o with
  | nil => exact ⟨kernel, o, [], rfl, hw, .nil, rfl, h, rfl, fun t => by simp⟩
  | cons tp called ih =>
    obtain ⟨htp, hnodup⟩ := List.nodup_cons.mp hnodup
    obtain ⟨k₁, o₁, hk₁, hw₁, hs, h₁, heq, hblocked⟩ :=
      hw.wakeup (k := k) h halive (hb tp List.mem_cons_self)
    have halive₁ : o₁.sys.dead = false := by
      rw [heq]
      exact halive
    have hb₁ : ∀ t ∈ called, o₁.kernel.blocked t = some .CH_STATE_SLEEPING := by
      intro t ht
      have hne : t ≠ tp := fun h => htp (h ▸ ht)
      rw [hblocked, Function.update_of_ne hne]
      exact hb t (List.mem_cons_of_mem _ ht)
    obtain ⟨k₂, o₂, tr, hk₂, hw₂, hr, hdata, h₂, heq₂, hsleep⟩ := ih hw₁ h₁ halive₁ hnodup hb₁
    refine ⟨k₂, o₂, _, ?_, hw₂, (Run.single hs).append hr, ?_, h₂, ?_, fun t => ?_⟩
    · rw [TimedOS.wakeups, List.foldlM_cons, hk₁]
      exact hk₂
    · rw [List.flatMap_append, hdata]
      rfl
    · rw [heq₂, heq]
    · rw [hsleep, hblocked, List.mem_cons, not_or]
      by_cases ht : t = tp
      · simp [ht]
      · rw [Function.update_of_ne ht]
        simp [ht]

end OS

/-! ### Steps -/

theorem VTPhase.setting_of_ne {p : VTPhase} (hserving : p.serving = false) (hout : p ≠ .out) :
    p.setting = true := by
  cases p with
  | out => exact absurd rfl hout
  | tick => cases hserving
  | rearm => cases hserving
  | start => rfl
  | set => rfl

theorem VTPhase.serving_of_ne {p : VTPhase} (hsetting : p.setting = false) (hout : p ≠ .out) :
    p.serving = true := by
  cases p with
  | out => exact absurd rfl hout
  | tick => rfl
  | rearm => rfl
  | start => cases hsetting
  | set => cases hsetting

theorem VTPhase.not_setting {p : VTPhase} (hserving : p.serving = true) : p.setting = false := by
  cases p with
  | tick => rfl
  | rearm => rfl
  | out | start | set => cases hserving

namespace VirtualTimers

variable {T : Type} {v v' : VirtualTimers T} {delay : ℕ} {par : T}

theorem chVTDoSetI_phase (h : v.chVTDoSetI delay par = some v') (hout : v.phase = .out) :
    v'.phase.serving = false := by
  rw [chVTDoSetI, delay_raised] at h
  split at h
  · cases h
  · dsimp only at h
    split at h
    · obtain rfl := Option.some.inj h
      rfl
    · split at h
      · obtain rfl := Option.some.inj h
        show v.phase.serving = false
        rw [hout]
        rfl
      · obtain rfl := Option.some.inj h
        dsimp only
        split <;> rfl

theorem chVTDoTickI_phase {r : List T × VirtualTimers T} (h : v.chVTDoTickI = some r)
    (htick : v.phase = .tick) : r.2.phase.setting = false := by
  obtain ⟨c, -, rfl⟩ := Option.map_eq_some_iff.mp h
  split
  · show (v.rearm _ _).phase.setting = false
    rw [rearm]
    split <;> rfl
  · show v.phase.setting = false
    rw [htick]
    rfl

end VirtualTimers

def TimedAct.isCount : TimedAct → Bool
  | .count => true
  | _ => false

def TimedAct.isSleep : TimedAct → Bool
  | .sleep _ => true
  | _ => false

namespace TimedOS

open VirtualTimers

variable {k : Layout} {t t' : TimedOS} {o : OS}

/-- The threads without timers are in `o`, an interrupt under way taken to its end. Those
that sleep have a timer each, and in `chVTDoSetI` so has the caller. -/
structure Follows (k : Layout) (t : TimedOS) (o : OS) : Prop where
  inv : o.Inv
  represents : ∃ d, t.vt.Represents d
  within : OS.Within t.os.kernel o
  same : t.os = { o with kernel := t.os.kernel }
  settled : t.vt.phase.serving = false → t.os.kernel = o.kernel
  nodup : (t.vt.timers.map Prod.snd).Nodup
  sleepers : ∀ tp, tp ∈ t.vt.timers.map Prod.snd ↔
    o.kernel.blocked tp = some .CH_STATE_SLEEPING ∨
      t.vt.phase.setting = true ∧ tp = o.kernel.current
  caller : t.vt.phase.setting = true → o.enabled k .sleep = true

/-- What a step has to show. -/
def Simulated (k : Layout) (t : TimedOS) (o : OS) (a : TimedAct) : Prop :=
  ∃ t' o' tr, t.act k a = some t' ∧ Run (OSStep k) o tr o' ∧
    (tr.flatMap fun p => p.2.data) = a.data ∧ Follows k t' o'

namespace Follows

theorem os_eq (h : Follows k t o) (hp : t.vt.phase.serving = false) : t.os = o := by
  rw [h.same, h.settled hp]

/-- Between the timers' functions. -/
theorem sleepers_out (h : Follows k t o) (hp : t.vt.phase.setting = false) (tp : Thread) :
    tp ∈ t.vt.timers.map Prod.snd ↔ o.kernel.blocked tp = some .CH_STATE_SLEEPING := by
  rw [h.sleepers, hp]
  exact or_iff_left fun hand => Bool.false_ne_true hand.1

/-- A state between the timers' functions. -/
theorem of_out (hi : o.Inv) (hd : ∃ d, t.vt.Represents d) (ht : t.os = o)
    (hp : t.vt.phase = .out) (hnodup : (t.vt.timers.map Prod.snd).Nodup)
    (hsleep : ∀ tp, tp ∈ t.vt.timers.map Prod.snd ↔
      o.kernel.blocked tp = some .CH_STATE_SLEEPING) : Follows k t o where
  inv := hi
  represents := hd
  within := ht ▸ hi.within
  same := by rw [ht]
  settled := fun _ => by rw [ht]
  nodup := hnodup
  sleepers := fun tp => by
    rw [hsleep, hp]
    exact (or_iff_left fun hand => Bool.false_ne_true hand.1).symm
  caller := fun hset => by
    rw [hp] at hset
    cases hset

theorem os {a : OSAct} (h : Follows k t o) (hs : SysInv o.sys)
    (he : t.enabled k (.os a) = true) : Simulated k t o (.os a) := by
  rw [enabled, Bool.and_eq_true, Bool.and_eq_true, beq_iff_eq] at he
  obtain ⟨⟨ha, hout⟩, he⟩ := he
  have hos : t.os = o := h.os_eq (by rw [hout]; rfl)
  rw [hos] at he
  obtain ⟨o', hadv, hsleep⟩ := h.inv.sleeping_kept hs he ha
  refine ⟨{ t with os := o' }, o', _, ?_, Run.single ⟨he, hadv.act⟩, by simp [TimedAct.data], ?_⟩
  · rw [act, hos, hadv.act]
    rfl
  · exact of_out hadv.inv h.represents rfl hout h.nodup fun tp =>
      (h.sleepers_out (by rw [hout]; rfl) tp).trans (hsleep tp).symm

theorem count (h : Follows k t o) (he : t.enabled k .count = true) : Simulated k t o .count := by
  obtain ⟨d, L, hd⟩ := h.represents
  exact ⟨{ t with vt := t.vt.count }, o, [], rfl, .nil, rfl,
    { h with represents := ⟨d.count, L, hd.count he⟩ }⟩

theorem interrupt (h : Follows k t o) (he : t.enabled k .interrupt = true) :
    Simulated k t o .interrupt := by
  rw [enabled, Bool.and_eq_true, VirtualTimers.enabled, Bool.and_eq_true, beq_iff_eq] at he
  obtain ⟨-, hout, hpend⟩ := he
  obtain ⟨d, hd⟩ := h.represents
  refine ⟨_, o, [], rfl, .nil, rfl, ⟨h.inv, ⟨d, hd.interrupt hout hpend⟩, h.within, h.same,
    fun hserving => ?_, h.nodup, fun tp => ?_, fun hsetting => ?_⟩⟩
  · cases hserving
  · rw [h.sleepers_out (by rw [hout]; rfl) tp]
    exact (or_iff_left fun hand => Bool.false_ne_true hand.1).symm
  · cases hsetting

/-- The thread's own sleep, once its timer is set. -/
theorem goSleep {v : VirtualTimers Thread} {a : TimedAct} (h : Follows k t o)
    (hp : t.vt.phase.serving = false) (he : o.enabled k .sleep = true) (ha : a.data = [])
    (hact : t.act k a = TimedOS.goSleep k { t with vt := v }) (hv : ∃ d, v.Represents d)
    (hout : v.phase = .out) (hnodup : (v.timers.map Prod.snd).Nodup)
    (hsleep : ∀ tp, tp ∈ v.timers.map Prod.snd ↔
      o.kernel.blocked tp = some .CH_STATE_SLEEPING ∨ tp = o.kernel.current) :
    Simulated k t o a := by
  obtain ⟨o', hadv, -, hblocked⟩ := h.inv.sleep he
  refine ⟨{ os := o', vt := v }, o', _, ?_, Run.single ⟨he, hadv.act⟩, by rw [ha]; rfl, ?_⟩
  · rw [hact, TimedOS.goSleep, h.os_eq hp, hadv.act]
    rfl
  · refine of_out hadv.inv hv rfl hout hnodup fun tp => ?_
    rw [hblocked]
    by_cases htp : tp = o.kernel.current
    · rw [htp, Function.update_self]
      exact iff_of_true ((hsleep _).mpr (.inr rfl)) rfl
    · rw [Function.update_of_ne htp]
      exact (hsleep tp).trans (or_iff_left htp)

theorem sleep {time : ℕ} (h : Follows k t o) (he : t.enabled k (.sleep time) = true) :
    Simulated k t o (.sleep time) := by
  rw [enabled, Bool.and_eq_true] at he
  obtain ⟨he, hset⟩ := he
  rw [VirtualTimers.enabled, Bool.and_eq_true, beq_iff_eq, decide_eq_true_iff] at hset
  obtain ⟨hout, hpos, hle⟩ := hset
  have hserving : t.vt.phase.serving = false := by rw [hout]; rfl
  have hos : t.os = o := h.os_eq hserving
  rw [hos] at he
  obtain ⟨d, hd⟩ := h.represents
  obtain ⟨v, hv, hd'⟩ := hd.set hout hpos hle t.os.kernel.current
  have hperm : (v.timers.map Prod.snd).Perm (o.kernel.current :: t.vt.timers.map Prod.snd) := by
    rw [timers_eq hd', timers_eq hd, hos]
    exact Deadlines.add_perm
  have hcur : o.kernel.current ∉ t.vt.timers.map Prod.snd := by
    rw [h.sleepers_out (by rw [hout]; rfl)]
    exact h.inv.current_not_sleeping rfl
  have hnodup : (v.timers.map Prod.snd).Nodup :=
    hperm.nodup_iff.mpr (List.nodup_cons.mpr ⟨hcur, h.nodup⟩)
  have hsleep (tp : Thread) : tp ∈ v.timers.map Prod.snd ↔
      o.kernel.blocked tp = some .CH_STATE_SLEEPING ∨ tp = o.kernel.current := by
    rw [hperm.mem_iff, List.mem_cons, h.sleepers_out (by rw [hout]; rfl), or_comm]
  have hphase : v.phase.serving = false := chVTDoSetI_phase hv hout
  by_cases hvout : v.phase = .out
  · refine h.goSleep hserving he rfl ?_ ⟨_, hd'⟩ hvout hnodup hsleep
    rw [act, hv]
    exact if_pos hvout
  · refine ⟨{ t with vt := v }, o, [], ?_, .nil, rfl, ⟨h.inv, ⟨_, hd'⟩, h.within, h.same,
      fun _ => h.settled hserving, hnodup, fun tp => ?_, fun _ => he⟩⟩
    · rw [act, hv]
      exact if_neg hvout
    · rw [hsleep, VTPhase.setting_of_ne hphase hvout, eq_self, true_and]

/-- The end of an interrupt of the timers. -/
theorem endInterrupt {os : OS} {v : VirtualTimers Thread} {o' : OS} (hi : o'.Inv)
    (hw : OS.Within os.kernel o') (hsame : os = { o' with kernel := os.kernel })
    (hv : ∃ d, v.Represents d) (hout : v.phase = .out) (hnodup : (v.timers.map Prod.snd).Nodup)
    (hsleep : ∀ tp, tp ∈ v.timers.map Prod.snd ↔
      o'.kernel.blocked tp = some .CH_STATE_SLEEPING) :
    ∃ t', TimedOS.endInterrupt { os := os, vt := v } = some t' ∧ Follows k t' o' := by
  refine ⟨{ os := o', vt := v }, ?_, of_out hi hv rfl hout hnodup hsleep⟩
  rw [TimedOS.endInterrupt, hw.reschedule, Option.map_some, hsame]

theorem alarm (h : Follows k t o) (he : t.enabled k .alarm = true) : Simulated k t o .alarm := by
  rw [enabled, Bool.and_eq_true, VirtualTimers.enabled, Bool.and_eq_true, bne_iff_ne,
    bne_iff_ne] at he
  obtain ⟨-, hout, htick⟩ := he
  obtain ⟨d, hd⟩ := h.represents
  obtain ⟨v, hv, hd', hvout, -⟩ := hd.alarm hout htick
  have htimers : v.timers.map Prod.snd = t.vt.timers.map Prod.snd := by
    rw [timers_eq hd', timers_eq hd]
  have hnodup : (v.timers.map Prod.snd).Nodup := htimers ▸ h.nodup
  cases hserving : t.vt.phase.serving with
  | true =>
    have hsetting := VTPhase.not_setting hserving
    obtain ⟨t', ht', hf⟩ := endInterrupt (k := k) h.inv h.within h.same ⟨d, hd'⟩ hvout hnodup
      fun tp => htimers ▸ h.sleepers_out hsetting tp
    refine ⟨t', o, [], ?_, .nil, rfl, hf⟩
    rw [act, hv]
    exact (if_pos hserving).trans ht'
  | false =>
    have hsetting := VTPhase.setting_of_ne hserving hout
    refine h.goSleep hserving (h.caller hsetting) rfl ?_ ⟨d, hd'⟩ hvout hnodup fun tp => ?_
    · rw [act, hv]
      exact if_neg (by rw [hserving]; exact Bool.false_ne_true)
    · rw [htimers, h.sleepers, hsetting, eq_self, true_and]

theorem tick (h : Follows k t o) (he : t.enabled k .tick = true) : Simulated k t o .tick := by
  rw [enabled, Bool.and_eq_true, VirtualTimers.enabled, beq_iff_eq] at he
  obtain ⟨halive, htick⟩ := he
  obtain ⟨d, hd⟩ := h.represents
  obtain ⟨v, hv, hd', hturn, -⟩ := hd.tick htick
  have hsetting : v.phase.setting = false := chVTDoTickI_phase hv htick
  have hall : t.vt.timers.map Prod.snd = d.due ++ v.timers.map Prod.snd := by
    rw [timers_eq hd', timers_eq hd, Deadlines.due_append_rest]
  have hmem (tp : Thread) : o.kernel.blocked tp = some .CH_STATE_SLEEPING ↔
      tp ∈ d.due ∨ tp ∈ v.timers.map Prod.snd := by
    rw [← h.sleepers_out (by rw [htick]; rfl), hall, List.mem_append]
  have hnodup := h.nodup
  rw [hall, List.nodup_append] at hnodup
  obtain ⟨hdue, hleft, hdisj⟩ := hnodup
  have halive' : o.sys.dead = false := by
    rw [h.same] at halive
    simpa using halive
  obtain ⟨kernel, o', tr, hk, hw, hr, hdata, hi, heq, hsleep⟩ :=
    h.within.wakeups (k := k) h.inv halive' hdue fun tp htp => (hmem tp).mpr (.inl htp)
  have hsleep' (tp : Thread) : tp ∈ v.timers.map Prod.snd ↔
      o'.kernel.blocked tp = some .CH_STATE_SLEEPING := by
    rw [hsleep, hmem]
    constructor
    · intro htp
      exact ⟨.inr htp, fun hdue => hdisj tp hdue tp htp rfl⟩
    · rintro ⟨htp, hnot⟩
      exact htp.resolve_left hnot
  have hsame : { t.os with kernel := kernel } = { o' with kernel := kernel } := by
    rw [heq, h.same]
  by_cases hvout : v.phase = .out
  · have hend : OS.Within { t.os with kernel := kernel }.kernel o' := hw
    obtain ⟨t', ht', hf⟩ := endInterrupt (k := k) hi hend hsame ⟨_, hd'⟩ hvout hleft hsleep'
    refine ⟨t', o', tr, ?_, hr, hdata, hf⟩
    rw [act, hv, Option.bind_eq_bind, Option.bind_some, hk]
    exact (if_pos hvout).trans ht'
  · refine ⟨{ os := { t.os with kernel := kernel }, vt := v }, o', tr, ?_, hr, hdata, hi, ⟨_, hd'⟩,
      hw, hsame, fun hnot => ?_, hleft, fun tp => ?_, fun hand => ?_⟩
    · rw [act, hv, Option.bind_eq_bind, Option.bind_some, hk]
      exact if_neg hvout
    · rw [VTPhase.serving_of_ne hsetting hvout] at hnot
      cases hnot
    · rw [hsleep', hsetting]
      exact (or_iff_left fun hand => Bool.false_ne_true hand.1).symm
    · rw [hsetting] at hand
      cases hand

theorem step {a : TimedAct} (h : Follows k t o) (hs : SysInv o.sys)
    (he : t.enabled k a = true) : Simulated k t o a := by
  cases a with
  | os a => exact h.os hs he
  | count => exact h.count he
  | sleep time => exact h.sleep he
  | interrupt => exact h.interrupt he
  | tick => exact h.tick he
  | alarm => exact h.alarm he

end Follows

/-! ### Runs -/

theorem follows_start (b : Board) : Follows k (TimedOS.start b) (OS.start b) := by
  refine Follows.of_out (OS.inv_start b) ⟨_, Represents.init⟩ rfl rfl List.nodup_nil fun tp => ?_
  refine iff_of_false List.not_mem_nil ?_
  show chSysInit.blocked tp ≠ some .CH_STATE_SLEEPING
  cases tp <;> decide

theorem follows_run {b : Board} {tr : List (TimedOS × TimedAct)} (h : TimedRun k b tr t) :
    ∃ o tr', OSRun k b tr' o ∧
      (tr'.flatMap fun p => p.2.data) = (tr.flatMap fun p => p.2.data) ∧ Follows k t o := by
  induction h with
  | nil => exact ⟨_, [], .nil, rfl, follows_start b⟩
  | snoc _ hs ih =>
    rename_i tr t t' a _
    obtain ⟨o, tr₁, hr, hdata, hf⟩ := ih
    obtain ⟨-, tr₂, hsys, -⟩ := OS.inv_of_run hr
    obtain ⟨t'', o', tr', hact, hr', hdata', hf'⟩ := hf.step (sysInv_run hsys) hs.1
    obtain rfl := Option.some.inj (hact.symm.trans hs.2)
    refine ⟨o', _, hr.append hr', ?_, hf'⟩
    rw [List.flatMap_append, List.flatMap_append, hdata, hdata', List.flatMap_singleton]

/-! ### How long a thread sleeps -/

/-- The ticks of the counter in a stretch of a run. -/
def ticks (tr : List (TimedOS × TimedAct)) : ℕ := tr.countP fun p => p.2.isCount

theorem vt_sleep {time : ℕ} (h : TimedStep k t (.sleep time) t') :
    VTStep t.vt (.set time t.os.kernel.current, []) t'.vt := by
  obtain ⟨he, hact⟩ := h
  obtain ⟨v, hv, hact⟩ := Option.bind_eq_some_iff.mp hact
  have hvt : t'.vt = v := by
    split at hact
    · obtain ⟨os, -, rfl⟩ := Option.map_eq_some_iff.mp hact
      rfl
    · obtain rfl := Option.some.inj hact
      rfl
  refine ⟨(Bool.and_eq_true_iff.mp he).2, ?_⟩
  rw [VirtualTimers.act, hv, hvt]
  rfl

/-- Any step is one of the timers, or leaves them alone. -/
theorem vt_step {a : TimedAct} (h : TimedStep k t a t') : t'.vt = t.vt ∧ a.isCount = false ∨
    ∃ b called, VTStep t.vt (b, called) t'.vt ∧ b.isCount = a.isCount ∧
      ∀ delay tp, b = .set delay tp → a = .sleep delay ∧ tp = t.os.kernel.current := by
  obtain ⟨he, hact⟩ := h
  cases a with
  | os a =>
    obtain ⟨os, -, rfl⟩ := Option.map_eq_some_iff.mp hact
    exact .inl ⟨rfl, rfl⟩
  | count =>
    obtain rfl := Option.some.inj hact
    exact .inr ⟨.count, [], ⟨he, rfl⟩, rfl, nofun⟩
  | sleep time =>
    refine .inr ⟨.set time t.os.kernel.current, [], vt_sleep ⟨he, hact⟩, rfl, ?_⟩
    rintro _ _ ⟨⟩
    exact ⟨rfl, rfl⟩
  | interrupt =>
    obtain rfl := Option.some.inj hact
    exact .inr ⟨.interrupt, [], ⟨(Bool.and_eq_true_iff.mp he).2, rfl⟩, rfl, nofun⟩
  | tick =>
    obtain ⟨r, hr, hact⟩ := Option.bind_eq_some_iff.mp hact
    obtain ⟨kernel, -, hact⟩ := Option.bind_eq_some_iff.mp hact
    have hvt : t'.vt = r.2 := by
      split at hact
      · obtain ⟨os, -, rfl⟩ := Option.map_eq_some_iff.mp hact
        rfl
      · obtain rfl := Option.some.inj hact
        rfl
    exact .inr ⟨.tick, r.1, ⟨(Bool.and_eq_true_iff.mp he).2, hvt ▸ hr⟩, rfl, nofun⟩
  | alarm =>
    obtain ⟨v, hv, hact⟩ := Option.bind_eq_some_iff.mp hact
    have hvt : t'.vt = v := by
      split at hact
      · obtain ⟨os, -, rfl⟩ := Option.map_eq_some_iff.mp hact
        rfl
      · obtain ⟨os, -, rfl⟩ := Option.map_eq_some_iff.mp hact
        rfl
    refine .inr ⟨.alarm, [], ⟨(Bool.and_eq_true_iff.mp he).2, ?_⟩, rfl, nofun⟩
    rw [VirtualTimers.act, hv, hvt]
    rfl

/-- A stretch of a run in which `tp` does not go to sleep, as one of the timers. -/
theorem vt_run {tp : Thread} {tr : List (TimedOS × TimedAct)} (h : Run (TimedStep k) t tr t')
    (hne : ∀ p ∈ tr, p.2.isSleep = true → p.1.os.kernel.current ≠ tp) :
    ∃ trv, Run VTStep t.vt trv t'.vt ∧ elapsed trv = ticks tr ∧
      ∀ q ∈ trv, q.2.1.sets tp = false := by
  induction h with
  | nil => exact ⟨[], .nil, rfl, nofun⟩
  | snoc _ hs ih =>
    rename_i tr t t' a _
    rw [List.forall_mem_append, List.forall_mem_singleton] at hne
    obtain ⟨trv, hr, helapsed, hsets⟩ := ih hne.1
    have hticks : ticks (tr ++ [(t, a)]) = ticks tr + if a.isCount then 1 else 0 := by
      rw [ticks, List.countP_append, List.countP_singleton]
      rfl
    rcases vt_step hs with ⟨hvt, hcount⟩ | ⟨b, called, hv, hcount, hset⟩
    · rw [hvt, hticks, hcount]
      exact ⟨trv, hr, helapsed, hsets⟩
    · refine ⟨_, hr.snoc hv, ?_, ?_⟩
      · rw [elapsed_snoc, hticks, helapsed, hcount]
      · rw [List.forall_mem_append, List.forall_mem_singleton]
        refine ⟨hsets, ?_⟩
        cases b with
        | set delay tp' =>
          obtain ⟨rfl, rfl⟩ := hset _ _ rfl
          exact beq_false_of_ne (hne.2 rfl)
        | count | interrupt | tick | alarm => rfl

/-! ### Every run -/

/-- A step as a function; `none` also where the action cannot happen. -/
def step (k : Layout) (t : TimedOS) (a : TimedAct) : Option TimedOS :=
  if t.enabled k a then t.act k a else none

theorem step_eq_some {a : TimedAct} (h : t.step k a = some t') : TimedStep k t a t' :=
  Option.ite_none_right_eq_some.mp h

theorem exists_run (k : Layout) (b : Board) (acts : List TimedAct) (p : TimedOS → Bool)
    (h : (acts.foldlM (TimedOS.step k) (TimedOS.start b)).any p = true) :
    ∃ tr t, TimedRun k b tr t ∧ tr.map Prod.snd = acts ∧ p t = true :=
  Run.exists_of_foldlM (fun _ _ _ => step_eq_some) acts p h

/-- The command thread and the LED thread sleep, and the interrupt wakes the first. -/
def sleepingSession : List TimedAct :=
  [.os .create, .os .await, .os .create, .os .wait, .os .create, .os .create, .os .exit,
    .sleep (TIME_US2I 100), .count, .alarm, .sleep (TIME_MS2I 500), .count, .interrupt, .tick, .tick, .alarm]

/-- The threads with their timers are threads whose sleep ends at any time, and do the same to
the device. -/
theorem refines_threads {b : Board} {tr : List (TimedOS × TimedAct)} (h : TimedRun k b tr t) :
    ∃ o tr', OSRun k b tr' o ∧
      (tr'.flatMap fun p => p.2.data) = (tr.flatMap fun p => p.2.data) ∧
      (t.vt.phase = .out → t.os = o) := by
  obtain ⟨o, tr', hr, hdata, hf⟩ := follows_run h
  exact ⟨o, tr', hr, hdata, fun hout => hf.os_eq (by rw [hout]; rfl)⟩

theorem refines_threads_sleeping : ∃ (t : TimedOS) (o : OS) (tr' : _), OSRun default default tr' o ∧
    (tr'.flatMap fun p => p.2.data) = [.runner .wait] ∧ t.os = o ∧
    t.os.kernel.current = .comm := by
  obtain ⟨tr, t, hr, hacts, ht⟩ := exists_run default default sleepingSession
    (fun t => t.vt.phase == .out && t.os.kernel.current == .comm) (by decide +kernel)
  rw [Bool.and_eq_true, beq_iff_eq, beq_iff_eq] at ht
  obtain ⟨o, tr', hr', hdata, hos⟩ := refines_threads hr
  have hacts' : (tr.flatMap fun p => p.2.data) = (tr.map Prod.snd).flatMap TimedAct.data :=
    (List.flatMap_map Prod.snd TimedAct.data tr).symm
  refine ⟨t, o, tr', hr', ?_, hos ht.1, ht.2⟩
  rw [hdata, hacts', hacts]
  rfl

/-- A thread sleeps if and only if its timer is in the list, which has it once. -/
theorem sleeping_iff_timer {b : Board} {tr : List (TimedOS × TimedAct)}
    (h : TimedRun k b tr t) (hout : t.vt.phase = .out) :
    (t.vt.timers.map Prod.snd).Nodup ∧
      ∀ tp, t.os.kernel.state tp = .CH_STATE_SLEEPING ↔ tp ∈ t.vt.timers.map Prod.snd := by
  obtain ⟨o, -, -, -, hf⟩ := follows_run h
  refine ⟨hf.nodup, fun tp => ?_⟩
  rw [hf.sleepers_out (by rw [hout]; rfl), hf.os_eq (by rw [hout]; rfl)]
  constructor
  · intro hstate
    exact blocked_of_state hstate rfl
  · intro hb
    exact (blocked_eq_some hb).1

theorem sleeping_iff_timer_sleeping : ∃ t : TimedOS, t.os.kernel.state .led = .CH_STATE_SLEEPING ∧
    (t.vt.timers.map Prod.snd).Nodup ∧ .led ∈ t.vt.timers.map Prod.snd := by
  obtain ⟨tr, t, hr, -, ht⟩ := exists_run default default sleepingSession
    (fun t => t.vt.phase == .out && t.os.kernel.state .led == .CH_STATE_SLEEPING)
    (by decide +kernel)
  rw [Bool.and_eq_true, beq_iff_eq, beq_iff_eq] at ht
  obtain ⟨hnodup, hiff⟩ := sleeping_iff_timer hr ht.1
  exact ⟨t, ht.2, hnodup, (hiff .led).mp ht.2⟩

/-- No assertion of the kernel or of the timers fails. -/
theorem timed_calls_succeed {b : Board} {tr : List (TimedOS × TimedAct)} {a : TimedAct}
    (h : TimedRun k b tr t) (he : t.enabled k a = true) : ∃ t', TimedStep k t a t' := by
  obtain ⟨o, tr', hr, -, hf⟩ := follows_run h
  obtain ⟨-, tr₁, hsys, -⟩ := OS.inv_of_run hr
  obtain ⟨t', -, -, hact, -⟩ := hf.step (sysInv_run hsys) he
  exact ⟨t', he, hact⟩

/-- In the turn that wakes the command thread. -/
theorem timed_calls_succeed_sleeping : ∃ tr t, TimedRun default default tr t ∧
    tr.map Prod.snd = sleepingSession.take 13 ∧ ∃ t', TimedStep default t .tick t' := by
  obtain ⟨tr, t, hr, hacts, he⟩ := exists_run default default (sleepingSession.take 13)
    (fun t => t.enabled default .tick) (by decide +kernel)
  exact ⟨tr, t, hr, hacts, timed_calls_succeed hr he⟩

/-- A thread that sleeps for a time does so until the ticks of it have passed, and when more
have and no interrupt of the timers is pending, it sleeps no more. -/
theorem sleeps_its_time {b : Board} {tr₁ tr : List (TimedOS × TimedAct)} {time : ℕ}
    {t₁ t₂ : TimedOS} (h : TimedRun k b tr₁ t) (hsleep : TimedStep k t (.sleep time) t₁)
    (hr : Run (TimedStep k) t₁ tr t₂)
    (hne : ∀ p ∈ tr, p.2.isSleep = true → p.1.os.kernel.current ≠ t.os.kernel.current)
    (hout : t₂.vt.phase = .out) :
    (ticks tr < max time CH_CFG_ST_TIMEDELTA →
        t₂.os.kernel.state t.os.kernel.current = .CH_STATE_SLEEPING) ∧
      (t₂.vt.pending = false → max time CH_CFG_ST_TIMEDELTA < ticks tr →
        t₂.os.kernel.state t.os.kernel.current ≠ .CH_STATE_SLEEPING) := by
  obtain ⟨o, -, -, -, hf⟩ := follows_run h
  obtain ⟨-, hset⟩ := Bool.and_eq_true_iff.mp hsleep.1
  rw [VirtualTimers.enabled, Bool.and_eq_true, beq_iff_eq] at hset
  have hos : t.os = o := hf.os_eq (by rw [hset.1]; rfl)
  obtain ⟨d, hd⟩ := hf.represents
  have hnew : t.os.kernel.current ∉ d.pending.map Prod.snd := by
    rw [← timers_eq hd, hf.sleepers_out (by rw [hset.1]; rfl), hos]
    exact hf.inv.current_not_sleeping rfl
  have hd₁ := (hd.step (vt_sleep hsleep)).2
  obtain ⟨trv, hrv, helapsed, hsets⟩ := vt_run hr hne
  obtain ⟨d₂, hd₂, hnow₂, hw₂⟩ := (watched_add hnew).run hd₁ hrv hsets
  have hnow : d₂.now = d.now + ticks tr := hnow₂.trans (congrArg (d.now + ·) helapsed)
  have hall := (h.snoc hsleep).append hr
  obtain ⟨o₂, -, -, -, hf₂⟩ := follows_run hall
  have hos₂ : t₂.os = o₂ := hf₂.os_eq (by rw [hout]; rfl)
  have hstate : t₂.os.kernel.state t.os.kernel.current = .CH_STATE_SLEEPING ↔
      t.os.kernel.current ∉ calls trv := by
    rw [← hw₂.mem_iff, ← timers_eq hd₂, hf₂.sleepers_out (by rw [hout]; rfl), hos₂]
    exact ⟨fun hs => blocked_of_state hs rfl, fun hb => (blocked_eq_some hb).1⟩
  rw [ne_eq, hstate, not_not]
  constructor
  · intro hlt hcalled
    have hle := hw₂.late hcalled
    omega
  · intro hpend hlt
    by_contra hnot
    have hle := hw₂.le_of_settled hd₂ hout hpend (hw₂.mem_iff.mpr hnot)
    omega

/-- The LED thread runs on while the command thread sleeps and is woken. -/
def whileAsleep : List TimedAct := [.count, .alarm, .count, .interrupt, .tick, .tick, .count]

theorem sleeps_its_time_whileAsleep : ∃ (t t₁ t₂ : TimedOS) (tr : _),
    TimedStep default t (.sleep (TIME_US2I 100)) t₁ ∧ Run (TimedStep default) t₁ tr t₂ ∧
      tr.map Prod.snd = whileAsleep ∧
      t₂.os.kernel.state t.os.kernel.current ≠ .CH_STATE_SLEEPING := by
  obtain ⟨l, t₂, hr, hacts, ht⟩ := exists_run default default
    (sleepingSession.take 7 ++ .sleep (TIME_US2I 100) :: whileAsleep)
    (fun t => t.vt.phase == .out && !t.vt.pending) (by decide +kernel)
  rw [Bool.and_eq_true, beq_iff_eq, Bool.not_eq_true'] at ht
  obtain ⟨tr₁, l, rfl, -, hacts⟩ := List.map_eq_append_iff.mp hacts
  obtain ⟨⟨t, a⟩, tr, rfl, ha, htail⟩ := List.map_eq_cons_iff.mp hacts
  obtain ⟨hr₁, t₁, hsleep, hr₂⟩ := hr.split
  obtain rfl : a = .sleep (TIME_US2I 100) := ha
  have hall : ∀ a ∈ whileAsleep, a.isSleep = false := by decide
  have hne : ∀ p ∈ tr, p.2.isSleep = true → p.1.os.kernel.current ≠ t.os.kernel.current := by
    intro p hp hs
    rw [hall p.2 (htail ▸ List.mem_map_of_mem hp)] at hs
    cases hs
  have hticks : ticks tr = (whileAsleep.countP fun a => a.isCount) := by
    rw [← htail, List.countP_map]
    rfl
  exact ⟨t, t₁, t₂, tr, hsleep, hr₂, htail,
    (sleeps_its_time hr₁ hsleep hr₂ hne ht.1).2 ht.2 (by rw [hticks]; decide)⟩

end TimedOS

end Stmdsp
