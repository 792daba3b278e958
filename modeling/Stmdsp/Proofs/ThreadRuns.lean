import Stmdsp.Proofs.Handoff

/-! The threads on their kernel: no assertion fails, the thread that runs has the highest
priority, and what the device does is a run of `Sys` under `allowed`. -/

namespace Stmdsp

open Kernel

/-- What a thread can be blocked in: its own calls. -/
def Thread.waits : Thread → List TState
  | idle => []
  | main => [.CH_STATE_FINAL]
  | led => [.CH_STATE_WTSTART, .CH_STATE_SLEEPING]
  | comm => [.CH_STATE_WTSTART, .CH_STATE_SLEEPING, .CH_STATE_QUEUED]
  | monitor => [.CH_STATE_WTSTART, .CH_STATE_QUEUED, .CH_STATE_SNDMSGQ]
  | runner => [.CH_STATE_WTSTART, .CH_STATE_WTMSG]

/-- The threads that are still to be created, and what the others wait in. -/
structure Population (toCreate : List Thread) (blocked : Thread → Option TState) : Prop where
  suffix : toCreate <:+ [.monitor, .runner, .comm, .led]
  created : ∀ t, t ∈ toCreate ↔ blocked t = some .CH_STATE_WTSTART
  waits : ∀ t st, blocked t = some st → st ∈ t.waits
  /-- `main` exits when they are all created. -/
  finished : blocked .main ≠ none → toCreate = []

namespace Population

variable {l : List Thread} {b : Thread → Option TState} {t : Thread} {v : Option TState}

theorem update (h : Population l b) (ht : t ∉ l)
    (hv : ∀ st, v = some st → st ∈ t.waits ∧ st ≠ .CH_STATE_WTSTART) (hmain : t = .main → l = []) :
    Population l (Function.update b t v) := by
  refine ⟨h.suffix, ?_, ?_, ?_⟩
  · intro t'
    by_cases heq : t' = t
    · rw [heq, Function.update_self]
      exact iff_of_false ht fun hstart => (hv _ hstart).2 rfl
    · rw [Function.update_of_ne heq, h.created]
  · intro t' st hst
    by_cases heq : t' = t
    · rw [heq, Function.update_self] at hst
      exact heq ▸ (hv st hst).1
    · rw [Function.update_of_ne heq] at hst
      exact h.waits t' st hst
  · intro hne
    by_cases heq : .main = t
    · exact hmain heq.symm
    · rw [Function.update_of_ne heq] at hne
      exact h.finished hne

theorem create (h : Population (t :: l) b) : Population l (Function.update b t none) := by
  have hnodup : (t :: l).Nodup := h.suffix.sublist.nodup (by decide)
  refine ⟨(List.suffix_cons t l).trans h.suffix, ?_, ?_, ?_⟩
  · intro t'
    by_cases heq : t' = t
    · rw [heq, Function.update_self]
      exact iff_of_false (List.nodup_cons.mp hnodup).1 (by simp)
    · rw [Function.update_of_ne heq, ← h.created, List.mem_cons, or_iff_right heq]
  · intro t' st hst
    by_cases heq : t' = t
    · rw [heq, Function.update_self] at hst
      cases hst
    · rw [Function.update_of_ne heq] at hst
      exact h.waits t' st hst
  · intro hne
    by_cases heq : .main = t
    · rw [heq, Function.update_self] at hne
      exact absurd rfl hne
    · rw [Function.update_of_ne heq] at hne
      exact absurd (h.finished hne) (List.cons_ne_nil t l)

theorem idle (h : Population l b) : b .idle = none := by
  cases hb : b .idle with
  | none => rfl
  | some st => exact absurd (h.waits _ _ hb) List.not_mem_nil

/-- The threads are created in their order. -/
theorem comm_of_runner (h : Population l b) (hr : .runner ∈ l) : .comm ∈ l := by
  have hsuffix := h.suffix
  simp only [List.suffix_cons_iff, List.suffix_nil] at hsuffix
  rcases hsuffix with rfl | rfl | rfl | rfl | rfl <;> simp at hr ⊢

theorem runner_of_monitor (h : Population l b) (hm : .monitor ∈ l) : .runner ∈ l := by
  have hsuffix := h.suffix
  simp only [List.suffix_cons_iff, List.suffix_nil] at hsuffix
  rcases hsuffix with rfl | rfl | rfl | rfl | rfl <;> simp at hm ⊢

/-- First the monitor thread, and then the runner. -/
theorem head_monitor (h : Population l b) (hm : .monitor ∈ l) : ∃ rest, l = .monitor :: rest := by
  have hsuffix := h.suffix
  simp only [List.suffix_cons_iff, List.suffix_nil] at hsuffix
  rcases hsuffix with rfl | rfl | rfl | rfl | rfl <;> simp at hm ⊢

theorem head_runner (h : Population l b) (hm : .monitor ∉ l) (hr : .runner ∈ l) :
    ∃ rest, l = .runner :: rest := by
  have hsuffix := h.suffix
  simp only [List.suffix_cons_iff, List.suffix_nil] at hsuffix
  rcases hsuffix with rfl | rfl | rfl | rfl | rfl <;> simp at hm hr ⊢

theorem not_toCreate (h : Population l b) (hb : b t ≠ some .CH_STATE_WTSTART) : t ∉ l :=
  (h.created t).not.mpr hb

end Population

theorem Kernel.Resettled.line {k₀ k' : Kernel Thread Msg} {b : Thread → Option TState}
    (h : Resettled Thread.prio k₀ k' b) (mb : MailboxRing Thread Msg 2) (fetched : Option Msg) :
    k'.line mb fetched =
      ⟨b .monitor, b .runner, k₀.u .monitor, k₀.msgqueue .runner, mb, fetched⟩ := by
  rw [Kernel.line, h.blocked, h.u, h.msgqueue]

namespace OS

structure Inv (o : OS) : Prop where
  settled : o.kernel.Settled Thread.prio
  population : Population o.toCreate o.kernel.blocked
  serial : o.usbWaiting = if o.kernel.blocked .comm = some .CH_STATE_QUEUED then [.comm] else []
  handoff : Handoff (o.kernel.line o.mMailbox o.fetched) o.sys
  /-- Before there is a command thread nothing starts the ADC. -/
  quiet : .comm ∈ o.toCreate → o.sys.dev.runStatus = .Idle
  taken : ∀ msg, o.sys.runner.message = some msg → o.r0 = some msg
  returned : o.r0 = (receivedMsgs o.sys.dev.conv).getLast?

/-- The device takes the steps of a list of at most one. -/
inductive DataStep (k : Layout) (s : Sys) : List SysAct → Sys → Prop where
  | none : DataStep k s [] s
  | one (a : SysAct) (s' : Sys) (h : PrioStep k s a s') : DataStep k s [a] s'

/-- The step is one that the kernel can take, it keeps the invariant, and the device takes
the step that it is made of. -/
structure Advance (k : Layout) (o : OS) (a : OSAct) (o' : OS) : Prop where
  act : o.act k a = some o'
  inv : o'.Inv
  data : DataStep k o.sys a.data o'.sys

namespace Inv

variable {k : Layout} {o : OS} {t t' : Thread}

theorem consistent (h : o.Inv) : o.kernel.Consistent Thread.prio := h.settled.consistent

theorem blocked_current (h : o.Inv) (hcur : o.kernel.current = t) : o.kernel.blocked t = none :=
  hcur ▸ h.consistent.blocked_current

/-- Threads of higher priority than the one that runs are blocked. -/
theorem exists_blocked (h : o.Inv) (hcur : o.kernel.current = t) (hlt : t.prio < t'.prio) :
    ∃ st, o.kernel.blocked t' = some st := by
  rw [← Option.ne_none_iff_exists']
  intro hnone
  exact Nat.not_le_of_lt hlt (hcur ▸ h.settled.le_current hnone)

/-- The idle thread is always there to run. -/
theorem ready_ne_nil (h : o.Inv) (hcur : o.kernel.current ≠ .idle) : o.kernel.ready ≠ [] := by
  have hidle := (h.consistent.blocked_eq_none.mp h.population.idle).resolve_left hcur.symm
  exact List.ne_nil_of_mem hidle

/-! ### Threads that hand over nothing -/

theorem create {tp : Thread} {rest : List Thread} (h : o.Inv) (hl : o.toCreate = tp :: rest) :
    ∃ o', o.Advance k .create o' ∧ o'.toCreate = rest ∧
      o'.kernel.blocked = Function.update o.kernel.blocked tp none := by
  have hpop := h.population
  rw [hl] at hpop
  have hb : o.kernel.blocked tp = some .CH_STATE_WTSTART :=
    (hpop.created tp).mp List.mem_cons_self
  obtain ⟨k', hk', hr⟩ := chThdCreateStatic_spec h.settled hb
  have hact : o.act k .create = some { o with kernel := k', toCreate := rest } := by
    simp only [act, hl, hk', Option.map_some]
  have hserial : o.usbWaiting =
      if k'.blocked .comm = some .CH_STATE_QUEUED then [.comm] else [] := by
    rw [hr.blocked, h.serial]
    by_cases htp : .comm = tp
    · rw [htp, hb, Function.update_self]
      rfl
    · rw [Function.update_of_ne htp]
  have hhandoff : Handoff (k'.line o.mMailbox o.fetched) o.sys := by
    rw [hr.line]
    cases tp with
    | monitor =>
      have hqr : o.mMailbox.qr = [] := h.handoff.readers.trans (by simp [line, hb])
      exact h.handoff.wakeMonitor hb (by decide) _ h.handoff.ring hqr rfl (.of_eq rfl)
    | runner => exact h.handoff.createRunner hb
    | comm => exact h.handoff
    | led => exact h.handoff
    | idle => exact absurd (hpop.waits _ _ hb) (by decide)
    | main => exact absurd (hpop.waits _ _ hb) (by decide)
  refine ⟨_, ⟨hact, ⟨hr.settled, hr.blocked.symm ▸ hpop.create, hserial, hhandoff, ?_, h.taken, h.returned⟩,
    .none⟩, rfl, hr.blocked⟩
  intro hmem
  exact h.quiet (hl ▸ List.mem_cons_of_mem _ hmem)

/-- The thread that runs goes to sleep in one of its own calls. -/
theorem population_sleep (h : o.Inv) (hcur : o.kernel.current = t) {st : TState}
    (hst : st ∈ t.waits) (hne : st ≠ .CH_STATE_WTSTART) (hmain : t = .main → o.toCreate = []) :
    Population o.toCreate (Function.update o.kernel.blocked t (some st)) := by
  refine h.population.update (h.population.not_toCreate ?_) ?_ hmain
  · rw [h.blocked_current hcur]
    exact (Option.some_ne_none _).symm
  · rintro _ ⟨⟩
    exact ⟨hst, hne⟩

/-- A thread is woken up. -/
theorem population_wake (h : o.Inv) {st : TState} (hb : o.kernel.blocked t = some st)
    (hne : st ≠ .CH_STATE_WTSTART) :
    Population o.toCreate (Function.update o.kernel.blocked t none) := by
  refine h.population.update (h.population.not_toCreate ?_) ?_ ?_
  · rw [hb]
    exact fun heq => hne (Option.some.inj heq)
  · rintro _ ⟨⟩
  · rintro rfl
    apply h.population.finished
    rw [hb]
    exact Option.some_ne_none st

theorem exit (h : o.Inv) (he : o.enabled k .exit = true) :
    ∃ o', o.Advance k .exit o' ∧ o'.toCreate = o.toCreate ∧
      o'.kernel.blocked = Function.update o.kernel.blocked .main (some .CH_STATE_FINAL) := by
  simp only [enabled, Bool.and_eq_true, beq_iff_eq] at he
  have hcur : o.kernel.current = .main := he.1.2
  have hall : o.toCreate = [] := List.isEmpty_iff.mp he.2
  have hne : o.kernel.ready ≠ [] := h.ready_ne_nil (by rw [hcur]; decide)
  obtain ⟨k', hk', hr⟩ := chSchGoSleepS_spec h.consistent hne .CH_STATE_FINAL rfl
  rw [hcur] at hr
  have hact : o.act k .exit = some { o with kernel := k' } := by
    simp only [act, chThdExit, hk', Option.map_some]
  refine ⟨_, ⟨hact, ⟨hr.settled, ?_, ?_, ?_, h.quiet, h.taken, h.returned⟩, .none⟩, rfl, hr.blocked⟩
  · rw [hr.blocked]
    exact h.population_sleep hcur (by decide) (by decide) fun _ => hall
  · rw [hr.blocked]
    exact h.serial
  · rw [hr.line]
    exact h.handoff

theorem sleep (h : o.Inv) (he : o.enabled k .sleep = true) :
    ∃ o', o.Advance k .sleep o' ∧ o'.toCreate = o.toCreate ∧
      o'.kernel.blocked =
        Function.update o.kernel.blocked o.kernel.current (some .CH_STATE_SLEEPING) := by
  simp only [enabled, Bool.and_eq_true, Bool.or_eq_true, beq_iff_eq] at he
  have hne : o.kernel.ready ≠ [] := h.ready_ne_nil (by rcases he.2 with hcur | hcur <;> simp [hcur])
  obtain ⟨k', hk', hr⟩ := chSchGoSleepS_spec h.consistent hne .CH_STATE_SLEEPING rfl
  have hact : o.act k .sleep = some { o with kernel := k' } := by
    simp only [act, hk', Option.map_some]
  have hpop : Population o.toCreate k'.blocked := by
    rw [hr.blocked]
    rcases he.2 with hcur | hcur
    · exact hcur ▸ h.population_sleep hcur (by decide) (by decide) Thread.noConfusion
    · exact hcur ▸ h.population_sleep hcur (by decide) (by decide) Thread.noConfusion
  refine ⟨_, ⟨hact, ⟨hr.settled, hpop, ?_, ?_, h.quiet, h.taken, h.returned⟩, .none⟩, rfl, hr.blocked⟩
  · rw [hr.blocked, h.serial]
    rcases he.2 with hcur | hcur
    · rw [h.blocked_current hcur, hcur]
      rfl
    · rw [hcur]
      rfl
  · rw [hr.line]
    rcases he.2 with hcur | hcur
    · rw [hcur]
      exact h.handoff
    · rw [hcur]
      exact h.handoff

theorem block (h : o.Inv) (he : o.enabled k .block = true) :
    ∃ o', o.Advance k .block o' ∧ o'.toCreate = o.toCreate ∧
      o'.kernel.blocked = Function.update o.kernel.blocked .comm (some .CH_STATE_QUEUED) := by
  simp only [enabled, Bool.and_eq_true, beq_iff_eq] at he
  have hcur : o.kernel.current = .comm := he.2
  have hne : o.kernel.ready ≠ [] := h.ready_ne_nil (by rw [hcur]; decide)
  obtain ⟨k', hk', hr⟩ := chThdEnqueueS_spec h.consistent hne o.usbWaiting
  rw [hcur] at hk' hr
  have hact : o.act k .block =
      some { o with usbWaiting := o.usbWaiting ++ [.comm], kernel := k' } := by
    simp only [act, hk', Option.map_some]
  refine ⟨_, ⟨hact, ⟨hr.settled, ?_, ?_, ?_, h.quiet, h.taken, h.returned⟩, .none⟩, rfl, hr.blocked⟩
  · rw [hr.blocked]
    exact h.population_sleep hcur (by decide) (by decide) Thread.noConfusion
  · rw [hr.blocked, h.serial, h.blocked_current hcur]
    rfl
  · rw [hr.line]
    exact h.handoff

theorem timer {tp : Thread} (h : o.Inv) (he : o.enabled k (.timer tp) = true) :
    ∃ o', o.Advance k (.timer tp) o' ∧ o'.toCreate = o.toCreate ∧
      o'.kernel.blocked = Function.update o.kernel.blocked tp none := by
  simp only [enabled, Bool.and_eq_true, Bool.or_eq_true, beq_iff_eq] at he
  have hb : o.kernel.blocked tp = some .CH_STATE_SLEEPING := blocked_of_state he.2 rfl
  obtain ⟨k₁, hk₁, hr₁⟩ := wakeup_spec h.consistent hb
  obtain ⟨k', hk', hr⟩ := hr₁.reschedule
  have hact : o.act k (.timer tp) = some { o with kernel := k' } := by
    simp only [act, hk₁, hk', Option.bind_eq_bind, Option.bind_some, Option.pure_def]
  have hpop : Population o.toCreate k'.blocked := hr.blocked.symm ▸ h.population_wake hb (by decide)
  refine ⟨_, ⟨hact, ⟨hr.settled, hpop, ?_, ?_, h.quiet, h.taken, h.returned⟩, .none⟩, rfl, hr.blocked⟩
  · rw [hr.blocked, h.serial]
    rcases he.1.2 with rfl | rfl
    · rw [hb]
      rfl
    · rfl
  · rw [hr.line]
    rcases he.1.2 with rfl | rfl
    · exact h.handoff
    · exact h.handoff

theorem usb {msg : MsgStatus} (h : o.Inv) (he : o.enabled k (.usb msg) = true) :
    ∃ o', o.Advance k (.usb msg) o' ∧ o'.toCreate = o.toCreate ∧
      o'.kernel.blocked = Function.update o.kernel.blocked .comm none := by
  have hb : o.kernel.blocked .comm = some .CH_STATE_QUEUED := by
    by_contra hne
    simp [enabled, h.serial.trans (if_neg hne)] at he
  have hq : o.usbWaiting = [.comm] := h.serial.trans (if_pos hb)
  obtain ⟨k₁, hk₁, hr₁⟩ := chThdDequeueNextI_spec h.consistent [] hb msg
  obtain ⟨k', hk', hr⟩ := hr₁.reschedule
  have hact : o.act k (.usb msg) = some { o with usbWaiting := [], kernel := k' } := by
    simp only [act, hq, hk₁, hk', Option.bind_eq_bind, Option.bind_some, Option.pure_def]
  have hpop : Population o.toCreate k'.blocked := hr.blocked.symm ▸ h.population_wake hb (by decide)
  refine ⟨_, ⟨hact, ⟨hr.settled, hpop, ?_, ?_, h.quiet, h.taken, h.returned⟩, .none⟩, rfl, hr.blocked⟩
  · rw [hr.blocked]
    rfl
  · rw [hr.line]
    exact h.handoff

/-! ### The hand-over of messages -/

theorem reset_false (h : o.Inv) (hs : SysInv o.sys) : o.mMailbox.reset = false :=
  h.handoff.ring.reset.trans hs.reset

/-- With a thread below them running, the monitor thread and the runner wait for messages,
and there are none. -/
theorem served (h : o.Inv) (hcur : o.kernel.current = t) (hlt : t.prio < Thread.monitor.prio)
    (hcomm : .comm ∉ o.toCreate) :
    o.kernel.blocked .monitor = some .CH_STATE_QUEUED ∧
      o.kernel.blocked .runner = some .CH_STATE_WTMSG ∧
      o.sys.monitor = .fetching ∧ o.sys.runner = .waiting ∧ o.mMailbox.cnt = 0 := by
  have hpop := h.population
  have hrunner : .runner ∉ o.toCreate := fun hmem => hcomm (hpop.comm_of_runner hmem)
  have hmonitor : .monitor ∉ o.toCreate := fun hmem => hrunner (hpop.runner_of_monitor hmem)
  obtain ⟨st, hst⟩ := h.exists_blocked hcur hlt
  obtain ⟨st', hst'⟩ := h.exists_blocked hcur (hlt.trans (by decide) : t.prio < Thread.runner.prio)
  have hrb : o.kernel.blocked .runner = some .CH_STATE_WTMSG := by
    have hmem := hpop.waits _ _ hst'
    simp only [Thread.waits, List.mem_cons, List.not_mem_nil, or_false] at hmem
    rcases hmem with rfl | rfl
    · exact absurd ((hpop.created _).mpr hst') hrunner
    · exact hst'
  have hwait : o.sys.runner = .waiting ∧
      o.kernel.blocked .monitor ≠ some .CH_STATE_SNDMSGQ := by
    cases h.handoff.runner with
    | before hb => exact absurd ((hpop.created _).mpr hb) hrunner
    | asleep _ hr hm => exact ⟨hr, hm⟩
    | awake hb => exact absurd (hrb.symm.trans hb) (Option.some_ne_none _)
  have hmb : o.kernel.blocked .monitor = some .CH_STATE_QUEUED := by
    have hmem := hpop.waits _ _ hst
    simp only [Thread.waits, List.mem_cons, List.not_mem_nil, or_false] at hmem
    rcases hmem with rfl | rfl | rfl
    · exact absurd ((hpop.created _).mpr hst) hmonitor
    · exact hst
    · exact absurd hst hwait.2
  exact ⟨hmb, hrb, (h.handoff.fetching_of_blocked hmb (by decide)).2, hwait.1, h.handoff.asleep hmb⟩

theorem queue_of_cnt (h : o.Inv) (hcnt : o.mMailbox.cnt = 0) : o.sys.dev.mMailbox.queue = [] :=
  List.length_eq_zero_iff.mp (h.handoff.ring.cnt_eq.symm.trans hcnt)

/-- Before there is a command thread the mailbox is empty. -/
theorem created_of_queue (h : o.Inv) (hs : SysInv o.sys) (hcnt : 0 < o.mMailbox.cnt) :
    .comm ∉ o.toCreate := by
  intro hmem
  have heq : o.mMailbox.cnt = _ := h.handoff.ring.cnt_eq
  rw [heq, (hs.quiet (h.quiet hmem)).queue] at hcnt
  exact Nat.lt_irrefl 0 hcnt

theorem comm_created (h : o.Inv) (hcur : o.kernel.current = .comm) : .comm ∉ o.toCreate := by
  apply h.population.not_toCreate
  rw [h.blocked_current hcur]
  exact (Option.some_ne_none _).symm

/-- The scheduler lets through what `allowed` does. -/
theorem allowed_of_may {a : SysAct} (h : o.Inv) (hmay : o.may a = true) :
    allowed o.sys a = true := by
  cases a with
  | comm =>
    have hcur : o.kernel.current = .comm := beq_iff_eq.mp hmay
    obtain ⟨-, -, hm, hr, hcnt⟩ := h.served hcur (by decide) (h.comm_created hcur)
    simp [allowed, hm, hr, h.queue_of_cnt hcnt]
  | monitor => cases hmay
  | host | runner | adc | dac | memFault | hardFault => rfl

theorem fetch (h : o.Inv) (hs : SysInv o.sys) (he : o.enabled k .fetch = true) :
    ∃ o', o.Advance k .fetch o' ∧ o'.toCreate = o.toCreate ∧
      o'.kernel.blocked = o.kernel.blocked := by
  simp only [enabled, Bool.and_eq_true, Bool.or_eq_true, Bool.not_eq_true', beq_iff_eq,
    Option.isNone_iff_eq_none, decide_eq_true_eq, h.reset_false hs, Bool.false_eq_true,
    false_or] at he
  obtain ⟨⟨⟨halive, hcur⟩, hf⟩, hpos⟩ := he
  have hb : o.kernel.blocked .monitor = none := h.blocked_current hcur
  have hm := h.handoff.fetching_of_running hb hf
  have hrunner : .runner ∉ o.toCreate := fun hmem =>
    h.created_of_queue hs hpos (h.population.comm_of_runner hmem)
  have hwait : o.sys.runner = .waiting := by
    obtain ⟨st, hst⟩ := h.exists_blocked hcur (by decide : Thread.monitor.prio < Thread.runner.prio)
    cases h.handoff.runner with
    | before hb => exact absurd ((h.population.created _).mpr hb) hrunner
    | asleep _ hr _ => exact hr
    | awake hb => exact absurd (hst.symm.trans hb) (Option.some_ne_none _)
  obtain ⟨k', hk', hr⟩ := chSchRescheduleS_spec h.consistent
  obtain ⟨msg, mb', hfetch, hring, href⟩ := h.handoff.ring.chMBFetchTimeoutS hs.reset hpos hk'
  let s' : Sys := { o.sys with
    dev := { o.sys.dev with mMailbox := mb' }
    monitor := .sending msg }
  have hstep : sysStep k o.sys .monitor = some s' := by
    simp [sysStep, halive, Sys.act, Sys.monitorStep, hm, hfetch, s']
  have hact : o.act k .fetch = some { o with
      mMailbox := o.mMailbox.get, kernel := k', fetched := some msg, sys := s' } := by
    have hring' : o.mMailbox.chMBFetchTimeoutS Thread.prio o.kernel =
        some (.message msg o.mMailbox.get k') := hring
    simp only [act, OS.fetch, hring', hstep, Option.bind_eq_bind, Option.bind_some, Option.pure_def]
  refine ⟨_, ⟨hact, ⟨hr.settled, hr.blocked.symm ▸ h.population, hr.blocked.symm ▸ h.serial, ?_,
    h.quiet, h.taken, h.returned⟩, DataStep.one _ _ ⟨by simp [allowed, hwait], hstep⟩⟩, rfl, hr.blocked⟩
  rw [hr.line]
  exact h.handoff.fetch hb hwait href rfl rfl rfl

theorem await (h : o.Inv) (he : o.enabled k .await = true) :
    ∃ o', o.Advance k .await o' ∧ o'.toCreate = o.toCreate ∧
      o'.kernel.blocked = Function.update o.kernel.blocked .monitor (some .CH_STATE_QUEUED) := by
  simp only [enabled, Bool.and_eq_true, Bool.not_eq_true', Bool.or_eq_false_iff, beq_iff_eq,
    Option.isNone_iff_eq_none, decide_eq_false_iff_not] at he
  obtain ⟨⟨⟨halive, hcur⟩, hf⟩, hreset, hcnt⟩ := he
  have hb : o.kernel.blocked .monitor = none := h.blocked_current hcur
  have hne : o.kernel.ready ≠ [] := h.ready_ne_nil (by rw [hcur]; decide)
  obtain ⟨k', hk', hr⟩ := chThdEnqueueS_spec h.consistent hne o.mMailbox.qr
  rw [hcur] at hk' hr
  have hlook : o.mMailbox.chMBFetchTimeoutS Thread.prio o.kernel =
      some (.asleep { o.mMailbox with qr := o.mMailbox.qr ++ [.monitor] } k') := by
    rw [MailboxRing.chMBFetchTimeoutS, if_neg (by rw [hreset]; exact Bool.false_ne_true),
      if_neg hcnt, hk', Option.map_some]
  have hact : o.act k .await = some { o with
      mMailbox := { o.mMailbox with qr := o.mMailbox.qr ++ [.monitor] }, kernel := k' } := by
    simp only [act, OS.fetch, hlook, Option.bind_eq_bind, Option.bind_some, Option.pure_def]
  refine ⟨_, ⟨hact, ⟨hr.settled, ?_, ?_, ?_, h.quiet, h.taken, h.returned⟩, .none⟩, rfl, hr.blocked⟩
  · rw [hr.blocked]
    exact h.population_sleep hcur (by decide) (by decide) Thread.noConfusion
  · rw [hr.blocked]
    exact h.serial
  · rw [hr.line]
    exact h.handoff.await hb hf (Nat.eq_zero_of_not_pos hcnt)

theorem send (h : o.Inv) (he : o.enabled k .send = true) :
    ∃ o', o.Advance k .send o' ∧ o'.toCreate = o.toCreate ∧
      o'.kernel.blocked = Function.update (Function.update o.kernel.blocked .runner none) .monitor
        (some .CH_STATE_SNDMSGQ) := by
  simp only [enabled, Bool.and_eq_true, beq_iff_eq, Option.isSome_iff_exists] at he
  obtain ⟨⟨halive, hcur⟩, msg, hf⟩ := he
  obtain ⟨-, -, -, hrb⟩ := h.handoff.runner_of_holding hf
  obtain ⟨k', hk', hr⟩ := chMsgSend_spec h.consistent hrb msg
  rw [hcur] at hr
  have hact : o.act k .send = some { o with kernel := k', fetched := none } := by
    simp only [act, hf, hk', Option.bind_eq_bind, Option.bind_some, Option.pure_def]
  refine ⟨_, ⟨hact, ⟨hr.settled, ?_, ?_, ?_, h.quiet, h.taken, h.returned⟩, .none⟩, rfl, hr.blocked⟩
  · rw [hr.blocked]
    refine (h.population_wake hrb (by decide)).update ?_ (by decide) Thread.noConfusion
    apply h.population.not_toCreate
    rw [h.blocked_current hcur]
    exact (Option.some_ne_none _).symm
  · rw [hr.blocked]
    exact h.serial
  · rw [hr.line]
    have hu : (o.kernel.queueMsg .runner msg).u .monitor = .sentmsg msg := by
      simp [queueMsg, hcur]
    have hq : (o.kernel.queueMsg .runner msg).msgqueue .runner =
        o.kernel.msgqueue .runner ++ [.monitor] := by
      simp [queueMsg, hcur]
    rw [hu, hq]
    exact h.handoff.send hf

theorem wait (h : o.Inv) (he : o.enabled k .wait = true) :
    ∃ o', o.Advance k .wait o' ∧ o'.toCreate = o.toCreate ∧
      o'.kernel.blocked = Function.update o.kernel.blocked .runner (some .CH_STATE_WTMSG) := by
  simp only [enabled, Bool.and_eq_true, Bool.not_eq_true', beq_iff_eq] at he
  obtain ⟨⟨halive, hcur⟩, htop⟩ := he
  have hne : o.kernel.ready ≠ [] := h.ready_ne_nil (by rw [hcur]; decide)
  have hq : o.kernel.msgqueue o.kernel.current = [] := by
    rw [hcur]
    exact (h.handoff.monitor_of_top htop).2.2.2
  obtain ⟨k', hk', hr⟩ := chMsgWaitS_spec h.consistent hne hq
  rw [hcur] at hr
  have hstep : sysStep k o.sys (.runner .wait) = some { o.sys with runner := .waiting } := by
    simp [sysStep, halive, Sys.act, Sys.runnerStep, htop]
  have hact : o.act k .wait =
      some { o with kernel := k', sys := { o.sys with runner := .waiting } } := by
    simp only [act, hk', hstep, Option.bind_eq_bind, Option.bind_some, Option.pure_def]
  refine ⟨_, ⟨hact, ⟨hr.settled, ?_, ?_, ?_, h.quiet, ?_, h.returned⟩, DataStep.one _ _ ⟨rfl, hstep⟩⟩,
    rfl, hr.blocked⟩
  · rw [hr.blocked]
    exact h.population_sleep hcur (by decide) (by decide) Thread.noConfusion
  · rw [hr.blocked]
    exact h.serial
  · rw [hr.line]
    exact h.handoff.wait htop
  · rintro msg ⟨⟩

theorem receive (h : o.Inv) (he : o.enabled k .receive = true) :
    ∃ o', o.Advance k .receive o' ∧ o'.toCreate = o.toCreate ∧
      o'.kernel.blocked = Function.update o.kernel.blocked .monitor none := by
  simp only [enabled, Bool.and_eq_true, Bool.not_eq_true', beq_iff_eq] at he
  obtain ⟨⟨halive, hcur⟩, hw⟩ := he
  have hb : o.kernel.blocked .runner = none := h.blocked_current hcur
  obtain ⟨msg, hm, hmb, hu, -, hsenders⟩ := h.handoff.message_of_woken hb hw
  have hq : o.kernel.msgqueue o.kernel.current = [.monitor] := by
    rw [hcur]
    exact hsenders
  obtain ⟨k₁, k', htake, hget, hrelease, hr⟩ := chMsgTakeS_spec h.settled hq hmb hu .MSG_OK
  rw [hcur] at hr
  let s' : Sys := { o.sys with
    dev := o.sys.dev.logConv (.received msg)
    monitor := .fetching
    runner := .received msg }
  have hstep : sysStep k o.sys (.runner .receive) = some s' := by
    simp [sysStep, halive, Sys.act, Sys.runnerStep, hw, hm, s']
  have hact : o.act k .receive = some { o with kernel := k', r0 := some msg, sys := s' } := by
    simp only [act, OS.receive, htake, hget, hrelease, hstep, Option.bind_eq_bind, Option.bind_some,
      Option.pure_def]
  refine ⟨_, ⟨hact, ⟨hr.settled, ?_, ?_, ?_, h.quiet, ?_, ?_⟩, DataStep.one _ _ ⟨rfl, hstep⟩⟩,
    rfl, hr.blocked⟩
  · rw [hr.blocked]
    exact h.population_wake hmb (by decide)
  · rw [hr.blocked]
    exact h.serial
  · rw [hr.line]
    exact h.handoff.receive hb hw _ rfl rfl Runner.noConfusion
  · exact fun msg' hmsg => hmsg
  · show some msg = (receivedMsgs (o.sys.dev.conv ++ [.received msg])).getLast?
    rw [receivedMsgs_append, (history_received msg).2.1, List.getLast?_concat]

/-! ### Steps of the device -/

/-- What the calls of an ADC interrupt leave, so that it can end. -/
def Handed (o : OS) (mb : MailboxRing Thread Msg 2) (k₁ : Kernel Thread Msg) (s' : Sys) : Prop :=
  ∃ k', k₁.chSchRescheduleS Thread.prio = some k' ∧ k'.Settled Thread.prio ∧
    Population o.toCreate k'.blocked ∧
    (∀ t, t ≠ .monitor → k'.blocked t = o.kernel.blocked t) ∧
      Handoff (k'.line mb o.fetched) s'

section Interrupt

variable {s' : Sys} {mb : MailboxRing Thread Msg 2}

theorem handed_of_same (h : o.Inv) (hh : Handoff (o.kernel.line mb o.fetched) s') :
    Handed o mb o.kernel s' := by
  obtain ⟨k', hk', hr⟩ := chSchRescheduleS_spec h.consistent
  refine ⟨k', hk', hr.settled, hr.blocked.symm ▸ h.population,
    fun t _ => congrFun hr.blocked t, ?_⟩
  rw [hr.line]
  exact hh

theorem handed_of_woken (h : o.Inv) (hb : o.kernel.blocked .monitor = some .CH_STATE_QUEUED)
    {k₁ : Kernel Thread Msg} {status : MsgStatus}
    (hr₁ : Readied Thread.prio (o.kernel.setRdymsg .monitor status) k₁ .monitor)
    (hring : mb.Refines s'.dev.mMailbox) (hqr : mb.qr = []) (hm : s'.monitor = o.sys.monitor)
    (hk : RunnerKept o.sys s') : Handed o mb k₁ s' := by
  obtain ⟨k', hk', hr⟩ := hr₁.reschedule
  refine ⟨k', hk', hr.settled, hr.blocked.symm ▸ h.population_wake hb (by decide),
    fun t ht => (congrFun hr.blocked t).trans (Function.update_of_ne ht _ _), ?_⟩
  rw [hr.line]
  exact h.handoff.wakeMonitor hb (by decide) _ hring hqr hm hk

theorem qr_of_queued (h : o.Inv) (hb : o.kernel.blocked .monitor = some .CH_STATE_QUEUED) :
    o.mMailbox.qr = [.monitor] := h.handoff.readers.trans (if_pos hb)

theorem qr_of_not_queued (h : o.Inv) (hb : o.kernel.blocked .monitor ≠ some .CH_STATE_QUEUED) :
    o.mMailbox.qr = [] := h.handoff.readers.trans (if_neg hb)

theorem not_queued_of_full (h : o.Inv) (hfull : 2 ≤ o.sys.dev.mMailbox.queue.length) :
    o.kernel.blocked .monitor ≠ some .CH_STATE_QUEUED := by
  intro hb
  have hzero : o.mMailbox.cnt = 0 := h.handoff.asleep hb
  have heq : o.mMailbox.cnt = _ := h.handoff.ring.cnt_eq
  omega

/-- A post on which the mailbox has room. -/
theorem handed_post (h : o.Inv) (hs : SysInv o.sys) (msg : Msg)
    (hfree : o.sys.dev.mMailbox.queue.length < 2)
    (hq : s'.dev.mMailbox.queue = o.sys.dev.mMailbox.queue ++ [msg])
    (hreset : s'.dev.mMailbox.reset = false) (hm : s'.monitor = o.sys.monitor)
    (hk : RunnerKept o.sys s') (status : MsgStatus) :
    ∃ r, mailboxCall (o.mMailbox, o.kernel) (.post msg status) = some r ∧
      Handed o r.1 r.2 s' := by
  obtain ⟨hok, hq', hr'⟩ := Mailbox.post_of_free msg hs.reset hfree
  have hsame : ∀ mb : MailboxRing Thread Msg 2,
      mb.Refines (o.sys.dev.mMailbox.chMBPostI msg).2 → mb.Refines s'.dev.mMailbox :=
    fun mb href => href.of_same (hq.trans hq'.symm) (hreset.trans hr'.symm)
  have hring : o.mMailbox.Refines o.sys.dev.mMailbox := h.handoff.ring
  by_cases hb : o.kernel.blocked .monitor = some .CH_STATE_QUEUED
  · obtain ⟨k₁, hk₁, hr₁⟩ := chThdDequeueNextI_spec h.consistent [] hb .MSG_OK
    rw [← h.qr_of_queued hb] at hk₁
    obtain ⟨mb, hmb, href, hqr⟩ := hring.chMBPostI hk₁ msg
    rw [hok, if_pos rfl] at hmb hqr
    refine ⟨(mb, k₁), ?_, h.handed_of_woken hb hr₁ (hsame mb href) hqr hm hk⟩
    rw [mailboxCall, hmb, Option.map_some]
  · have hempty : o.kernel.chThdDequeueNextI Thread.prio o.mMailbox.qr .MSG_OK =
        some ([], o.kernel) := by
      rw [h.qr_of_not_queued hb]
      rfl
    obtain ⟨mb, hmb, href, hqr⟩ := hring.chMBPostI hempty msg
    rw [hok, if_pos rfl] at hmb hqr
    refine ⟨(mb, o.kernel), ?_, h.handed_of_same ?_⟩
    · rw [mailboxCall, hmb, Option.map_some]
    · exact h.handoff.withMailbox hb (hsame mb href) (hqr.trans (h.qr_of_not_queued hb).symm) hm hk

/-- A post on which it is full. -/
theorem handed_lost (h : o.Inv) (hs : SysInv o.sys) (msg : Msg)
    (hfull : 2 ≤ o.sys.dev.mMailbox.queue.length)
    (hq : s'.dev.mMailbox.queue = o.sys.dev.mMailbox.queue)
    (hreset : s'.dev.mMailbox.reset = false) (hm : s'.monitor = o.sys.monitor)
    (hk : RunnerKept o.sys s') (status : MsgStatus) :
    ∃ r, mailboxCall (o.mMailbox, o.kernel) (.post msg status) = some r ∧
      Handed o r.1 r.2 s' := by
  have hb := h.not_queued_of_full hfull
  have hpost := Mailbox.post_of_full msg hs.reset hfull
  have hempty : o.kernel.chThdDequeueNextI Thread.prio o.mMailbox.qr .MSG_OK =
      some ([], o.kernel) := by
    rw [h.qr_of_not_queued hb]
    rfl
  have hring : o.mMailbox.Refines o.sys.dev.mMailbox := h.handoff.ring
  obtain ⟨mb, hmb, href, hqr⟩ := hring.chMBPostI hempty msg
  rw [hpost] at hmb hqr href
  refine ⟨(mb, o.kernel), ?_, h.handed_of_same ?_⟩
  · rw [mailboxCall, hmb, Option.map_some]
    rfl
  · exact h.handoff.withMailbox hb (href.of_same hq (hreset.trans hs.reset.symm)) hqr hm hk

theorem handed_reset (h : o.Inv) (hfull : 2 ≤ o.sys.dev.mMailbox.queue.length)
    (hq : s'.dev.mMailbox.queue = []) (hreset : s'.dev.mMailbox.reset = false)
    (hm : s'.monitor = o.sys.monitor) (hk : RunnerKept o.sys s') (ev : ℕ) (lost : List Msg) :
    ∃ r, mailboxCall (o.mMailbox, o.kernel) (.reset ev lost) = some r ∧ Handed o r.1 r.2 s' := by
  have hb := h.not_queued_of_full hfull
  have hempty : o.kernel.chThdDequeueAllI Thread.prio .MSG_RESET o.mMailbox.qr =
      some ([], o.kernel) := by
    rw [h.qr_of_not_queued hb]
    rfl
  obtain ⟨mb, hmb, href, hqr⟩ :=
    MailboxRing.Refines.chMBResetI Nat.two_pos o.sys.dev.mMailbox hempty
  refine ⟨(mb.chMBResumeX, o.kernel), ?_, h.handed_of_same ?_⟩
  · rw [mailboxCall, hmb, Option.map_some]
  · exact h.handoff.withMailbox hb (href.of_same hq hreset)
      (hqr.trans (h.qr_of_not_queued hb).symm) hm hk

/-- The calls of any ADC interrupt. -/
theorem handed_adc (h : o.Inv) (hs : SysInv o.sys) {ev : ℕ} {aborted : Bool}
    (he : AdcEffect ev o.sys.dev.mail s'.dev.mail aborted)
    (hreset : s'.dev.mMailbox.reset = false) (hm : s'.monitor = o.sys.monitor)
    (hk : RunnerKept o.sys s') :
    ∃ r, (s'.dev.conv.drop o.sys.dev.conv.length).foldlM mailboxCall (o.mMailbox, o.kernel) =
        some r ∧ Handed o r.1 r.2 s' := by
  cases he with
  | ignored _ hv =>
    simp only [Device.mail, MailView.mk.injEq] at hv
    rw [hv.2.2, List.drop_length]
    exact ⟨_, rfl, h.handed_of_same
      (h.handoff.work hv.2.1 (hreset.trans hs.reset.symm) hm hk)⟩
  | posted code _ hfree hv =>
    simp only [Device.mail, MailView.mk.injEq] at hv
    obtain ⟨r, hr, hh⟩ := h.handed_post hs _ hfree hv.2.1 hreset hm hk .MSG_OK
    rw [hv.2.2, List.drop_left, List.foldlM_cons, hr]
    exact ⟨r, rfl, hh⟩
  | reset _ hfull hv =>
    simp only [Device.mail, MailView.mk.injEq] at hv
    obtain ⟨r, hr, hh⟩ := h.handed_reset hfull hv.2.1 hreset hm hk ev o.sys.dev.mMailbox.queue
    have hconv : s'.dev.conv = o.sys.dev.conv ++ [.reset ev o.sys.dev.mMailbox.queue, .abort] :=
      hv.2.2
    rw [hconv, List.drop_left, List.foldlM_cons, hr]
    exact ⟨r, rfl, hh⟩
  | lost msg _ hfull hv =>
    simp only [Device.mail, MailView.mk.injEq] at hv
    obtain ⟨r, hr, hh⟩ := h.handed_lost hs msg hfull hv.2.1 hreset hm hk .MSG_TIMEOUT
    rw [hv.2.2, List.drop_left, List.foldlM_cons, hr]
    exact ⟨r, rfl, hh⟩

end Interrupt

/-- The rest of the invariant across a step of the device. -/
theorem quiet_of_sys {s' : Sys} {a : SysAct} (h : o.Inv) (hs : SysInv o.sys)
    (hstep : sysStep k o.sys a = some s') (ha : a = .comm → .comm ∉ o.toCreate) :
    .comm ∈ o.toCreate → s'.dev.runStatus = .Idle := by
  intro hmem
  rw [status_kept hs hstep fun hcomm => ha hcomm hmem]
  exact h.quiet hmem

theorem taken_of_sys {s' : Sys} {a : SysAct} (h : o.Inv) (hs : SysInv o.sys)
    (hstep : sysStep k o.sys a = some s') (ha : a ≠ .runner .receive) :
    ∀ msg, s'.runner.message = some msg → o.r0 = some msg := by
  intro msg hmsg
  rcases message_kept hs hstep ha with heq | hnone
  · exact h.taken msg (heq ▸ hmsg)
  · rw [hnone] at hmsg
    cases hmsg

theorem returned_of_sys {s' : Sys} {a : SysAct} (h : o.Inv) (hs : SysInv o.sys)
    (hstep : sysStep k o.sys a = some s') (ha : a ≠ .runner .receive) :
    o.r0 = (receivedMsgs s'.dev.conv).getLast? := by
  rw [received_kept hs hstep ha]
  exact h.returned

theorem adc {capture : Storage} (h : o.Inv) (hs : SysInv o.sys)
    (he : o.enabled k (.sys (.adc capture)) = true) :
    ∃ o', o.Advance k (.sys (.adc capture)) o' ∧
      ∀ t, t ≠ .monitor → o'.kernel.blocked t = o.kernel.blocked t := by
  have hsome : (sysStep k o.sys (.adc capture)).isSome = true := he
  obtain ⟨s', hstep⟩ := Option.isSome_iff_exists.mp hsome
  obtain ⟨aborted, -, heffect, -, hm, -, hframe⟩ := adcStep_spec hs.reset (sysStep_act hstep)
  have hk : RunnerKept o.sys s' := runner_kept hstep nofun nofun
  obtain ⟨⟨mb, k₁⟩, hcalls, k', hk', hsettled, hpop, hblocked, hhandoff⟩ :=
    h.handed_adc hs heffect (hframe.reset.trans hs.reset) hm hk
  have hact : o.act k (.sys (.adc capture)) =
      some { o with mMailbox := mb, kernel := k', sys := s' } := by
    have hk'' : (mb, k₁).2.chSchRescheduleS Thread.prio = some k' := hk'
    simp only [act, adcInterrupt, hstep, hcalls, hk'', Option.bind_eq_bind, Option.bind_some,
      Option.pure_def]
  refine ⟨_, ⟨hact, ⟨hsettled, hpop, ?_, hhandoff, h.quiet_of_sys hs hstep nofun,
    h.taken_of_sys hs hstep nofun, h.returned_of_sys hs hstep nofun⟩,
    DataStep.one _ _ ⟨rfl, hstep⟩⟩, hblocked⟩
  rw [hblocked .comm Thread.noConfusion]
  exact h.serial

/-- A step of the device without a kernel call. -/
theorem work {a : SysAct} (h : o.Inv) (hs : SysInv o.sys) (ha : ∀ capture, a ≠ .adc capture)
    (he : o.enabled k (.sys a) = true) :
    ∃ o', o.Advance k (.sys a) o' ∧ o'.kernel = o.kernel := by
  obtain ⟨hmay, hsome⟩ := Bool.and_eq_true_iff.mp he
  obtain ⟨s', hstep⟩ := Option.isSome_iff_exists.mp hsome
  have hact : o.act k (.sys a) = some { o with sys := s' } := by
    have hsys : o.act k (.sys a) = (sysStep k o.sys a).map fun sys => { o with sys := sys } := by
      cases a with
      | adc capture => exact absurd rfl (ha capture)
      | host | comm | monitor | runner | dac | memFault | hardFault => rfl
    rw [hsys, hstep, Option.map_some]
  have hmonitor : a ≠ .monitor := by rintro rfl; cases hmay
  have hwait : a ≠ .runner .wait := by rintro rfl; cases hmay
  have hreceive : a ≠ .runner .receive := by rintro rfl; cases hmay
  have hallowed := h.allowed_of_may hmay
  have hcomm : a = .comm → .comm ∉ o.toCreate := by
    rintro rfl
    exact h.comm_created (beq_iff_eq.mp hmay)
  refine ⟨_, ⟨hact, ⟨h.settled, h.population, h.serial, ?_, h.quiet_of_sys hs hstep hcomm,
    h.taken_of_sys hs hstep hreceive, h.returned_of_sys hs hstep hreceive⟩,
    DataStep.one _ _ ⟨hallowed, hstep⟩⟩, rfl⟩
  exact h.handoff.work (queue_kept hs hstep hmonitor ha)
    ((hs.step ⟨hallowed, hstep⟩).reset.trans hs.reset.symm)
    (monitor_kept hs hstep hmonitor hreceive)
    (runner_kept hstep hwait hreceive)

end Inv

/-- The kernel's calls of any step go through. -/
theorem advances {k : Layout} {o : OS} {a : OSAct} (h : o.Inv) (hs : SysInv o.sys)
    (he : o.enabled k a = true) : ∃ o', o.Advance k a o' := by
  cases a with
  | create =>
    cases hl : o.toCreate with
    | nil => simp [enabled, hl] at he
    | cons tp rest => exact (h.create hl).imp fun _ ho => ho.1
  | exit => exact (h.exit he).imp fun _ ho => ho.1
  | sys a =>
    by_cases ha : ∃ capture, a = .adc capture
    · obtain ⟨capture, rfl⟩ := ha
      exact (h.adc hs he).imp fun _ ho => ho.1
    · exact (h.work hs (not_exists.mp ha) he).imp fun _ ho => ho.1
  | fetch => exact (h.fetch hs he).imp fun _ ho => ho.1
  | await => exact (h.await he).imp fun _ ho => ho.1
  | send => exact (h.send he).imp fun _ ho => ho.1
  | wait => exact (h.wait he).imp fun _ ho => ho.1
  | receive => exact (h.receive he).imp fun _ ho => ho.1
  | sleep => exact (h.sleep he).imp fun _ ho => ho.1
  | block => exact (h.block he).imp fun _ ho => ho.1
  | timer tp => exact (h.timer he).imp fun _ ho => ho.1
  | usb msg => exact (h.usb he).imp fun _ ho => ho.1

/-! ### Runs -/

theorem settled_init : chSysInit.Settled Thread.prio := by
  refine ⟨⟨List.pairwise_singleton _ _, List.nodup_singleton _, ?_, ?_⟩, ?_⟩
  · intro t
    cases t <;> decide
  · intro t
    cases t <;> decide
  · intro t ht
    obtain rfl := List.mem_singleton.mp ht
    decide

theorem population_init : Population [.monitor, .runner, .comm, .led] chSysInit.blocked := by
  refine ⟨List.suffix_rfl, ?_, ?_, ?_⟩
  · intro t
    cases t <;> decide
  · intro t st hst
    cases t <;> cases hst <;> decide
  · intro hne
    exact absurd (by decide) hne

theorem inv_start (b : Board) : (OS.start b).Inv where
  settled := settled_init
  population := population_init
  serial := rfl
  handoff :=
    { ring := ⟨.empty Nat.two_pos, rfl, rfl⟩
      readers := rfl
      asleep := fun _ => rfl
      senders := rfl
      monitor := .fetching rfl rfl (by show chSysInit.blocked .monitor ≠ _; decide)
      runner := .before rfl rfl }
  quiet := fun _ => rfl
  taken := nofun
  returned := rfl

theorem advances_step {k : Layout} {o o' : OS} {a : OSAct} (h : o.Inv) (hs : SysInv o.sys)
    (hstep : OSStep k o a o') : o'.Inv ∧ DataStep k o.sys a.data o'.sys := by
  obtain ⟨o'', hadv⟩ := advances h hs hstep.1
  obtain rfl := Option.some.inj (hadv.act.symm.trans hstep.2)
  exact ⟨hadv.inv, hadv.data⟩

theorem DataStep.eq_of_nil {k : Layout} {s s' : Sys} (h : DataStep k s [] s') : s' = s := by
  cases h
  rfl

theorem DataStep.of_single {k : Layout} {s s' : Sys} {a : SysAct} (h : DataStep k s [a] s') :
    PrioStep k s a s' := by
  cases h
  assumption

theorem DataStep.run {k : Layout} {s s' : Sys} {acts : List SysAct} (h : DataStep k s acts s') :
    ∃ tr, Run (PrioStep k) s tr s' ∧ tr.map Prod.snd = acts := by
  cases h with
  | none => exact ⟨[], .nil, rfl⟩
  | one a _ h => exact ⟨[(s, a)], Run.single h, rfl⟩

theorem inv_of_run {k : Layout} {b : Board} {tr : List (OS × OSAct)} {o : OS}
    (h : OSRun k b tr o) :
    o.Inv ∧ ∃ tr', SysRun k b tr' o.sys ∧ tr'.map Prod.snd = tr.flatMap fun p => p.2.data := by
  refine h.simulate OS.sys OSAct.data (inv_start b) ?_
  intro tr' s a s' hr hi hs
  obtain ⟨hi', hdata⟩ := advances_step hi (sysInv_run hr) hs
  exact ⟨hi', hdata.run⟩

end OS

end Stmdsp
