import Stmdsp.Model.Threads
import Stmdsp.Proofs.KernelCalls
import Stmdsp.Proofs.Messages
import Stmdsp.Proofs.RunnerSteps

/-! The way of a message from the mailbox to the runner: where it can be, and what the
monitor thread and the runner then wait for. -/

namespace Stmdsp

/-! ### What a step of the device leaves of it -/

section SysSteps

variable {k : Layout} {s s' : Sys} {a : SysAct}

theorem monitor_kept (hs : SysInv s) (h : sysStep k s a = some s') (ha : a ≠ .monitor)
    (ha' : a ≠ .runner .receive) : s'.monitor = s.monitor := by
  cases (sysStep_effect hs.reset h).1 with
  | comm hcomm => exact (hs.comm.step hcomm).2.2.1
  | fetch => exact absurd rfl ha
  | receive => exact absurd rfl ha'
  | adc _ _ _ _ _ hm _ => exact hm
  | work _ _ _ _ _ hm _ => exact hm

theorem queue_kept (hs : SysInv s) (h : sysStep k s a = some s') (ha : a ≠ .monitor)
    (ha' : ∀ capture, a ≠ .adc capture) : s'.dev.mMailbox.queue = s.dev.mMailbox.queue := by
  cases (sysStep_effect hs.reset h).1 with
  | comm hcomm => rw [(hs.comm.step hcomm).2.1.mMailbox]
  | fetch => exact absurd rfl ha
  | receive _ _ _ _ _ hmail => exact congrArg MailView.queue hmail
  | adc capture => exact absurd rfl (ha' capture)
  | work _ _ _ hmail => exact congrArg MailView.queue hmail

theorem message_kept (hs : SysInv s) (h : sysStep k s a = some s') (ha : a ≠ .runner .receive) :
    s'.runner.message = s.runner.message ∨ s'.runner.message = none := by
  cases (sysStep_effect hs.reset h).1 with
  | comm hcomm => exact .inl (congrArg Runner.message (hs.comm.step hcomm).2.2.2)
  | fetch _ _ _ _ hr => exact .inl (congrArg Runner.message hr)
  | receive => exact absurd rfl ha
  | adc _ _ _ _ _ _ hr => exact hr
  | work _ _ _ _ _ _ hr => exact hr

theorem received_kept (hs : SysInv s) (h : sysStep k s a = some s') (ha : a ≠ .runner .receive) :
    receivedMsgs s'.dev.conv = receivedMsgs s.dev.conv := by
  cases (sysStep_effect hs.reset h).1 with
  | comm hcomm => rw [(hs.comm.step hcomm).2.1.conv]
  | fetch _ _ _ _ _ _ hconv => rw [hconv]
  | receive => exact absurd rfl ha
  | adc _ _ _ he =>
    cases he with
    | ignored _ hv => rw [show s'.dev.conv = _ from congrArg MailView.conv hv]; rfl
    | posted code _ _ hv =>
      rw [show s'.dev.conv = _ from congrArg MailView.conv hv, receivedMsgs_append,
        (history_post _).2.1, List.append_nil]
      rfl
    | reset _ _ hv =>
      rw [show s'.dev.conv = _ from congrArg MailView.conv hv, receivedMsgs_append,
        (history_reset _ _).2.1, List.append_nil]
      rfl
    | lost msg _ _ hv =>
      rw [show s'.dev.conv = _ from congrArg MailView.conv hv, receivedMsgs_append]
      exact List.append_nil _
  | work _ aborts hab hmail =>
    rw [show s'.dev.conv = _ from congrArg MailView.conv hmail, receivedMsgs_append,
      (history_aborts hab).2.1, List.append_nil]

/-- Nothing but its own calls takes the runner to and from where it waits. -/
structure RunnerKept (s s' : Sys) : Prop where
  waiting : s'.runner = .waiting ↔ s.runner = .waiting
  top : s.runner = .top → s'.runner = .top

theorem RunnerKept.of_eq (h : s'.runner = s.runner) : RunnerKept s s' :=
  ⟨by rw [h], fun htop => h.trans htop⟩

theorem runnerMove_kept {x : RunnerAct} (h : RunnerMove k s x s') (hw : x ≠ .wait)
    (hr : x ≠ .receive) : RunnerKept s s' := by
  cases h with
  | wait => exact absurd rfl hw
  | receive => exact absurd rfl hr
  | store msg size samples h =>
    obtain ⟨base, srcend, hcopy⟩ := beginStore_runner (s := s) msg size samples
    exact ⟨by simp [h, hcopy], by simp [h]⟩
  | copy msg samples base srcend w h =>
    rcases copyBlock_runner (s := s) msg samples base srcend w with hcopy | hcopy
    · exact ⟨by simp [h, hcopy], by simp [h]⟩
    · exact ⟨by simp [h, hcopy], by simp [h]⟩
  | callMeasured | call | noCall | startTimer | compute | svc | svcReturn | retMeasured | ret
  | stopTimer => exact ⟨by simp [*], by simp [*]⟩

theorem runner_kept (h : sysStep k s a = some s') (hw : a ≠ .runner .wait)
    (hr : a ≠ .runner .receive) : RunnerKept s s' := by
  cases hact : a.runnerAct with
  | some x =>
    obtain rfl := eq_runner_of_runnerAct hact
    exact runnerMove_kept (runnerStep_moves (sysStep_act h)) (fun hx => hw (hx ▸ rfl))
      fun hx => hr (hx ▸ rfl)
  | none =>
    by_cases hin : s.runner = .top ∨ s.runner = .waiting
    · exact .of_eq (runner_of_other hin hact h)
    rw [not_or] at hin
    refine ⟨iff_of_false ?_ hin.2, fun htop => absurd htop hin.1⟩
    rcases runner_of_foreign hact h with ⟨newpsp, hmove⟩ | hsame | ⟨htop, -⟩
    · rw [hmove]
      intro hwait
      apply hin.2
      cases hrun : s.runner <;> rw [hrun] at hwait <;> simp_all [Runner.moveStack]
    · rw [hsame]
      exact hin.2
    · rw [htop]
      exact Runner.noConfusion

theorem status_kept (hs : SysInv s) (h : sysStep k s a = some s') (ha : a ≠ .comm) :
    s'.dev.runStatus = s.dev.runStatus := (sysStep_interference hs.reset h ha).1.runStatus

/-- The monitor thread takes a step if there is a message. -/
theorem monitorStep_fetches (hreset : s.dev.mMailbox.reset = false)
    (h : s.monitorStep = some s') : s.monitor = .fetching ∧ s.dev.mMailbox.queue ≠ [] := by
  unfold Sys.monitorStep at h
  split at h
  · cases h
  · rename_i hm
    refine ⟨hm, fun hq => ?_⟩
    have hwait : s.dev.mMailbox.chMBFetchTimeoutS = .wait := by
      rw [Mailbox.chMBFetchTimeoutS, if_neg (by rw [hreset]; exact Bool.false_ne_true)]
      split
      · rfl
      · rename_i hcons
        rw [hq] at hcons
        cases hcons
    rw [hwait] at h
    cases h

end SysSteps

/-! ### Where the message is -/

/-- What the handing over of messages depends on. -/
structure Line where
  /-- What the monitor thread and the runner are blocked in. -/
  monitor : Option TState
  runner : Option TState
  /-- What the monitor thread has put down for the runner, and who is in its queue. -/
  sent : ThreadUnion Msg
  senders : List Thread
  mMailbox : MailboxRing Thread Msg 2
  fetched : Option Msg

def Kernel.line (k : Kernel Thread Msg) (mb : MailboxRing Thread Msg 2) (fetched : Option Msg) :
    Line where
  monitor := k.blocked .monitor
  runner := k.blocked .runner
  sent := k.u .monitor
  senders := k.msgqueue .runner
  mMailbox := mb
  fetched := fetched

inductive MonitorAt (l : Line) (s : Sys) : Prop where
  | fetching (hf : l.fetched = none) (hm : s.monitor = .fetching)
      (hb : l.monitor ≠ some .CH_STATE_SNDMSGQ) : MonitorAt l s
  | holding (msg : Msg) (hf : l.fetched = some msg) (hm : s.monitor = .sending msg)
      (hb : l.monitor = none) (hr : s.runner = .waiting) : MonitorAt l s
  | sending (msg : Msg) (hf : l.fetched = none) (hm : s.monitor = .sending msg)
      (hb : l.monitor = some .CH_STATE_SNDMSGQ) (hu : l.sent = .sentmsg msg)
      (hr : s.runner = .waiting) : MonitorAt l s

inductive RunnerAt (l : Line) (s : Sys) : Prop where
  | before (hb : l.runner = some .CH_STATE_WTSTART) (hr : s.runner = .top) : RunnerAt l s
  | asleep (hb : l.runner = some .CH_STATE_WTMSG) (hr : s.runner = .waiting)
      (hm : l.monitor ≠ some .CH_STATE_SNDMSGQ) : RunnerAt l s
  /-- It is woken by a sender. -/
  | awake (hb : l.runner = none) (hr : s.runner = .waiting → l.monitor = some .CH_STATE_SNDMSGQ) :
      RunnerAt l s

structure Handoff (l : Line) (s : Sys) : Prop where
  ring : l.mMailbox.Refines s.dev.mMailbox
  readers : l.mMailbox.qr = if l.monitor = some .CH_STATE_QUEUED then [.monitor] else []
  /-- The monitor thread waits for messages only while there are none. -/
  asleep : l.monitor = some .CH_STATE_QUEUED → l.mMailbox.cnt = 0
  senders : l.senders = if l.monitor = some .CH_STATE_SNDMSGQ then [.monitor] else []
  monitor : MonitorAt l s
  runner : RunnerAt l s

section Handoff

variable {l l' : Line} {s s' : Sys}

theorem MonitorAt.of_same (h : MonitorAt l s) (hf : l'.fetched = l.fetched)
    (hb : l'.monitor = l.monitor) (hu : l'.sent = l.sent) (hm : s'.monitor = s.monitor)
    (hk : RunnerKept s s') : MonitorAt l' s' := by
  cases h with
  | fetching hf' hm' hb' => exact .fetching (hf.trans hf') (hm.trans hm') (hb ▸ hb')
  | holding msg hf' hm' hb' hr =>
    exact .holding msg (hf.trans hf') (hm.trans hm') (hb.trans hb') (hk.waiting.mpr hr)
  | sending msg hf' hm' hb' hu' hr =>
    exact .sending msg (hf.trans hf') (hm.trans hm') (hb.trans hb') (hu.trans hu')
      (hk.waiting.mpr hr)

theorem RunnerAt.of_same (h : RunnerAt l s) (hb : l'.runner = l.runner)
    (hm : l'.monitor = some .CH_STATE_SNDMSGQ ↔ l.monitor = some .CH_STATE_SNDMSGQ)
    (hk : RunnerKept s s') : RunnerAt l' s' := by
  cases h with
  | before hb' hr => exact .before (hb.trans hb') (hk.top hr)
  | asleep hb' hr hm' => exact .asleep (hb.trans hb') (hk.waiting.mpr hr) (hm.not.mpr hm')
  | awake hb' hr => exact .awake (hb.trans hb') fun hw => hm.mpr (hr (hk.waiting.mp hw))

namespace Handoff

/-- A step of the device that hands over nothing. -/
theorem work (h : Handoff l s) (hq : s'.dev.mMailbox.queue = s.dev.mMailbox.queue)
    (hreset : s'.dev.mMailbox.reset = s.dev.mMailbox.reset) (hm : s'.monitor = s.monitor)
    (hk : RunnerKept s s') : Handoff l s' :=
  { h with
    ring := h.ring.of_same hq hreset
    monitor := h.monitor.of_same rfl rfl rfl hm hk
    runner := h.runner.of_same rfl .rfl hk }

/-- Other contents of the mailbox, while the monitor thread does not wait for any. -/
theorem withMailbox (h : Handoff l s) (hb : l.monitor ≠ some .CH_STATE_QUEUED)
    {mb : MailboxRing Thread Msg 2} (hring : mb.Refines s'.dev.mMailbox)
    (hqr : mb.qr = l.mMailbox.qr) (hm : s'.monitor = s.monitor) (hk : RunnerKept s s') :
    Handoff { l with mMailbox := mb } s' where
  ring := hring
  readers := hqr.trans h.readers
  asleep := fun hb' => absurd hb' hb
  senders := h.senders
  monitor := h.monitor.of_same rfl rfl rfl hm hk
  runner := h.runner.of_same rfl .rfl hk

/-- Blocked in anything but `chMsgSend`, the monitor thread has no message. -/
theorem fetching_of_blocked {st : TState} (h : Handoff l s) (hb : l.monitor = some st)
    (hst : st ≠ .CH_STATE_SNDMSGQ) : l.fetched = none ∧ s.monitor = .fetching := by
  cases h.monitor with
  | fetching hf hm _ => exact ⟨hf, hm⟩
  | holding _ _ _ hb' => rw [hb] at hb'; cases hb'
  | sending _ _ _ hb' => rw [hb] at hb'; exact absurd (Option.some.inj hb') hst

/-- The monitor thread is created, or woken by a message. -/
theorem wakeMonitor {st : TState} (h : Handoff l s) (hb : l.monitor = some st)
    (hst : st ≠ .CH_STATE_SNDMSGQ) (u : ThreadUnion Msg) {mb : MailboxRing Thread Msg 2}
    (hring : mb.Refines s'.dev.mMailbox) (hqr : mb.qr = []) (hm : s'.monitor = s.monitor)
    (hk : RunnerKept s s') :
    Handoff { l with monitor := none, sent := u, mMailbox := mb } s' := by
  obtain ⟨hf, hmon⟩ := h.fetching_of_blocked hb hst
  have hne : l.monitor ≠ some .CH_STATE_SNDMSGQ := by
    rw [hb]
    exact fun heq => hst (Option.some.inj heq)
  exact {
    ring := hring
    readers := hqr
    asleep := by simp
    senders := h.senders.trans (if_neg hne)
    monitor := .fetching hf (hm.trans hmon) (by simp)
    runner := h.runner.of_same rfl (iff_of_false (by simp) hne) hk }

theorem createRunner (h : Handoff l s) (hb : l.runner = some .CH_STATE_WTSTART) :
    Handoff { l with runner := none } s := by
  have hk : RunnerKept s s := .of_eq rfl
  refine { h with monitor := h.monitor.of_same rfl rfl rfl rfl hk, runner := ?_ }
  cases h.runner with
  | before _ hr =>
    apply RunnerAt.awake rfl
    intro hw
    rw [hr] at hw
    cases hw
  | asleep hb' => rw [hb] at hb'; cases hb'
  | awake hb' => rw [hb] at hb'; cases hb'

/-- What `chMBFetchTimeout` returns is on its way to the runner. -/
theorem fetch (h : Handoff l s) (hb : l.monitor = none) (hw : s.runner = .waiting) {msg : Msg}
    {mb : MailboxRing Thread Msg 2} (hring : mb.Refines s'.dev.mMailbox)
    (hqr : mb.qr = l.mMailbox.qr) (hm : s'.monitor = .sending msg) (hr : s'.runner = s.runner) :
    Handoff { l with mMailbox := mb, fetched := some msg } s' where
  ring := hring
  readers := hqr.trans h.readers
  asleep := by simp [hb]
  senders := h.senders
  monitor := .holding msg rfl hm hb (hr.trans hw)
  runner := h.runner.of_same rfl .rfl (.of_eq hr)

theorem fetching_of_running (h : Handoff l s) (hb : l.monitor = none) (hf : l.fetched = none) :
    s.monitor = .fetching := by
  cases h.monitor with
  | fetching _ hm _ => exact hm
  | holding _ hf' => rw [hf] at hf'; cases hf'
  | sending _ _ _ hb' => rw [hb] at hb'; cases hb'

/-- `chMBFetchTimeout` finds the mailbox empty. -/
theorem await (h : Handoff l s) (hb : l.monitor = none) (hf : l.fetched = none)
    (hcnt : l.mMailbox.cnt = 0) :
    Handoff { l with
      monitor := some .CH_STATE_QUEUED
      mMailbox := { l.mMailbox with qr := l.mMailbox.qr ++ [.monitor] } } s := by
  have hqr : l.mMailbox.qr = [] := h.readers.trans (by simp [hb])
  have hm := h.fetching_of_running hb hf
  exact {
    ring := h.ring.withReaders _
    readers := by simp [hqr]
    asleep := fun _ => hcnt
    senders := h.senders.trans (by simp [hb])
    monitor := .fetching hf hm (by simp)
    runner := h.runner.of_same rfl (by simp [hb]) (.of_eq rfl) }

/-- The runner waits for the message that is held. -/
theorem runner_of_holding {msg : Msg} (h : Handoff l s) (hf : l.fetched = some msg) :
    l.monitor = none ∧ s.monitor = .sending msg ∧ s.runner = .waiting ∧
      l.runner = some .CH_STATE_WTMSG := by
  cases h.monitor with
  | fetching hf' => rw [hf] at hf'; cases hf'
  | holding _ hf' hm hb hr =>
    obtain rfl := Option.some.inj (hf.symm.trans hf')
    refine ⟨hb, hm, hr, ?_⟩
    cases h.runner with
    | before _ htop => rw [hr] at htop; cases htop
    | asleep hrb _ _ => exact hrb
    | awake _ hsend => rw [hb] at hsend; cases hsend hr
  | sending _ hf' => rw [hf] at hf'; cases hf'

theorem send {msg : Msg} (h : Handoff l s) (hf : l.fetched = some msg) :
    Handoff { l with
      monitor := some .CH_STATE_SNDMSGQ
      runner := none
      sent := .sentmsg msg
      senders := l.senders ++ [.monitor]
      fetched := none } s := by
  obtain ⟨hb, hm, hr, -⟩ := h.runner_of_holding hf
  have hs : l.senders = [] := h.senders.trans (by simp [hb])
  exact {
    ring := h.ring
    readers := h.readers.trans (by simp [hb])
    asleep := by simp
    senders := by simp [hs]
    monitor := .sending msg rfl hm rfl rfl hr
    runner := .awake rfl fun _ => rfl }

/-- At the head of its loop the runner finds no message. -/
theorem monitor_of_top (h : Handoff l s) (htop : s.runner = .top) :
    l.fetched = none ∧ s.monitor = .fetching ∧ l.monitor ≠ some .CH_STATE_SNDMSGQ ∧
      l.senders = [] := by
  cases h.monitor with
  | fetching hf hm hb => exact ⟨hf, hm, hb, h.senders.trans (if_neg hb)⟩
  | holding _ _ _ _ hr => rw [htop] at hr; cases hr
  | sending _ _ _ _ _ hr => rw [htop] at hr; cases hr

theorem wait (h : Handoff l s) (htop : s.runner = .top) :
    Handoff { l with runner := some .CH_STATE_WTMSG } { s with runner := .waiting } := by
  obtain ⟨hf, hm, hb, -⟩ := h.monitor_of_top htop
  exact { h with
    ring := h.ring
    monitor := .fetching hf hm hb
    runner := .asleep rfl rfl hb }

/-- A runner that is woken finds the message. -/
theorem message_of_woken (h : Handoff l s) (hb : l.runner = none) (hw : s.runner = .waiting) :
    ∃ msg, s.monitor = .sending msg ∧ l.monitor = some .CH_STATE_SNDMSGQ ∧
      l.sent = .sentmsg msg ∧ l.fetched = none ∧ l.senders = [.monitor] := by
  have hm : l.monitor = some .CH_STATE_SNDMSGQ := by
    cases h.runner with
    | before hb' => rw [hb] at hb'; cases hb'
    | asleep hb' => rw [hb] at hb'; cases hb'
    | awake _ hr => exact hr hw
  have hs : l.senders = [.monitor] := h.senders.trans (if_pos hm)
  cases h.monitor with
  | fetching _ _ hne => exact absurd hm hne
  | holding _ _ _ hnone => rw [hm] at hnone; cases hnone
  | sending msg hf hmon _ hu _ => exact ⟨msg, hmon, hm, hu, hf, hs⟩

theorem receive (h : Handoff l s) (hb : l.runner = none) (hw : s.runner = .waiting)
    (u : ThreadUnion Msg) (hring : s'.dev.mMailbox = s.dev.mMailbox)
    (hm : s'.monitor = .fetching) (hr : s'.runner ≠ .waiting) :
    Handoff { l with monitor := none, sent := u, senders := [] } s' := by
  obtain ⟨msg, -, hsend, -, hf, -⟩ := h.message_of_woken hb hw
  exact {
    ring := hring ▸ h.ring
    readers := h.readers.trans (by simp [hsend])
    asleep := by simp
    senders := rfl
    monitor := .fetching hf hm (by simp)
    runner := .awake hb fun hw' => absurd hw' hr }

end Handoff

end Handoff

end Stmdsp
