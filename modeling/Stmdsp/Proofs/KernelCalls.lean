import Stmdsp.Proofs.Scheduling

/-! What threads queues, messages and mailboxes do to the threads, call by call, and the
ring of a mailbox as the list of its messages. -/

namespace Stmdsp

namespace Kernel

variable {T M : Type} [DecidableEq T] {prio : T → ℕ} {k k' : Kernel T M} {tp : T} {st : TState}
  {rest : List T} {msg : M} {status : MsgStatus}

/-- A thread may wait for something else. -/
theorem Consistent.setState (hc : k.Consistent prio) (hb : k.blocked tp = some st) (st' : TState)
    (hst : st'.runnable = false) :
    (k.setState tp st').Consistent prio ∧
      (k.setState tp st').blocked = Function.update k.blocked tp (some st') := by
  obtain ⟨hcur, hmem⟩ := hc.notMem_of_blocked hb
  have hready : st' ≠ .CH_STATE_READY := by rintro rfl; cases hst
  have hcurrent : st' ≠ .CH_STATE_CURRENT := by rintro rfl; cases hst
  refine ⟨⟨hc.sorted, hc.nodup, ?_, ?_⟩, ?_⟩
  · intro t
    show Function.update k.state tp st' t = _ ↔ t ∈ k.ready
    by_cases ht : t = tp
    · simp [ht, hready, hmem]
    · rw [Function.update_of_ne ht, hc.ready]
  · intro t
    show Function.update k.state tp st' t = _ ↔ t = k.current
    by_cases ht : t = tp
    · simp [ht, hcurrent, hcur]
    · rw [Function.update_of_ne ht, hc.current]
  · funext t
    by_cases ht : t = tp
    · simp [blocked, Kernel.setState, ht, hst]
    · simp [blocked, Kernel.setState, Function.update_of_ne ht]

/-- The end of an interrupt that has readied a thread. -/
theorem Readied.reschedule (h : Readied prio k k' tp) :
    ∃ k'', k'.chSchRescheduleS prio = some k'' ∧
      Resettled prio k k'' (Function.update k.blocked tp none) := by
  obtain ⟨k'', hk'', hr⟩ := chSchRescheduleS_spec h.consistent
  exact ⟨k'', hk'', hr.settled, hr.blocked.trans h.blocked, hr.u.trans h.u,
    hr.msgqueue.trans h.msgqueue⟩

theorem chThdCreateStatic_spec (hs : k.Settled prio) (hb : k.blocked tp = some .CH_STATE_WTSTART) :
    ∃ k', k.chThdCreateStatic prio tp = some k' ∧
      Resettled prio (k.setRdymsg tp .MSG_OK) k' (Function.update k.blocked tp none) := by
  have hsame : k.setState tp .CH_STATE_WTSTART = k := by
    rw [setState, ← (blocked_eq_some hb).1, Function.update_eq_self]
  rw [chThdCreateStatic, hsame]
  exact chSchWakeupS_spec hs hb (by decide) _

theorem chThdEnqueueS_spec (hc : k.Consistent prio) (hne : k.ready ≠ []) (tq : List T) :
    ∃ k', k.chThdEnqueueS tq = some (tq ++ [k.current], k') ∧
      Resettled prio k k' (Function.update k.blocked k.current (some .CH_STATE_QUEUED)) := by
  obtain ⟨k', hk', hr⟩ := chSchGoSleepS_spec hc hne .CH_STATE_QUEUED rfl
  exact ⟨k', by rw [chThdEnqueueS, hk', Option.map_some], hr⟩

theorem chThdDequeueNextI_spec (hc : k.Consistent prio) (rest : List T)
    (hb : k.blocked tp = some .CH_STATE_QUEUED) (status : MsgStatus) :
    ∃ k', k.chThdDequeueNextI prio (tp :: rest) status = some (rest, k') ∧
      Readied prio (k.setRdymsg tp status) k' tp := by
  have hc' : (k.setRdymsg tp status).Consistent prio := hc.setRdymsg status
  obtain ⟨k', hk', hr⟩ := chSchReadyI_spec (k := k.setRdymsg tp status) hc' hb (by decide)
  refine ⟨k', ?_, hr⟩
  rw [chThdDequeueNextI, if_pos (blocked_eq_some hb).1, hk', Option.map_some]

theorem wakeup_spec (hc : k.Consistent prio) (hb : k.blocked tp = some .CH_STATE_SLEEPING) :
    ∃ k', k.wakeup prio tp = some k' ∧ Readied prio (k.setRdymsg tp .MSG_TIMEOUT) k' tp :=
  chSchReadyI_spec (k := k.setRdymsg tp .MSG_TIMEOUT) (hc.setRdymsg _) hb (by decide)

/-! ### Messages -/

/-- The message in place and the sender in the queue of the receiver. -/
def queueMsg (k : Kernel T M) (tp : T) (msg : M) : Kernel T M :=
  { k with
    u := Function.update k.u k.current (.sentmsg msg)
    msgqueue := Function.update k.msgqueue tp (k.msgqueue tp ++ [k.current]) }

/-- To a receiver that waits for a message: it could run, and the sender sleeps. -/
theorem chMsgSend_spec (hc : k.Consistent prio) (hb : k.blocked tp = some .CH_STATE_WTMSG)
    (msg : M) :
    ∃ k', k.chMsgSend prio tp msg = some k' ∧
      Resettled prio (k.queueMsg tp msg) k'
        (Function.update (Function.update k.blocked tp none) k.current
          (some .CH_STATE_SNDMSGQ)) := by
  have hc₁ : (k.queueMsg tp msg).Consistent prio := ⟨hc.sorted, hc.nodup, hc.ready, hc.current⟩
  obtain ⟨k₂, hk₂, hr₂⟩ := chSchReadyI_spec (k := k.queueMsg tp msg) hc₁ hb (by decide)
  have hmem : tp ∈ k₂.ready := by
    have hnone : k₂.blocked tp = none := by rw [hr₂.blocked, Function.update_self]
    refine (hr₂.consistent.blocked_eq_none.mp hnone).resolve_left ?_
    rw [hr₂.current]
    exact (hc.notMem_of_blocked hb).1
  obtain ⟨k', hk', hr⟩ := chSchGoSleepS_spec hr₂.consistent (List.ne_nil_of_mem hmem)
    .CH_STATE_SNDMSGQ rfl
  rw [hr₂.blocked, hr₂.current] at hr
  refine ⟨k', ?_, hr.settled, hr.blocked, hr.u.trans hr₂.u, hr.msgqueue.trans hr₂.msgqueue⟩
  have hstate : (k.queueMsg tp msg).state tp = .CH_STATE_WTMSG := (blocked_eq_some hb).1
  have hsend : k.chMsgSend prio tp msg =
      ((k.queueMsg tp msg).chSchReadyI prio tp).bind fun k => k.chSchGoSleepS .CH_STATE_SNDMSGQ :=
    if_pos hstate
  rw [hsend, hk₂]
  exact hk'

theorem chMsgWaitS_spec (hc : k.Consistent prio) (hne : k.ready ≠ [])
    (hq : k.msgqueue k.current = []) :
    ∃ k', k.chMsgWaitS = some k' ∧
      Resettled prio k k' (Function.update k.blocked k.current (some .CH_STATE_WTMSG)) := by
  rw [chMsgWaitS, if_pos hq]
  exact chSchGoSleepS_spec hc hne _ rfl

/-- The first sender is taken, its message read, and it could run again. -/
theorem chMsgTakeS_spec (hs : k.Settled prio) (hq : k.msgqueue k.current = tp :: rest)
    (hb : k.blocked tp = some .CH_STATE_SNDMSGQ) (hu : k.u tp = .sentmsg msg) (status : MsgStatus) :
    ∃ k₁ k', k.chMsgTakeS = some (tp, k₁) ∧ k₁.chMsgGet tp = some msg ∧
      k₁.chMsgReleaseS prio tp status = some k' ∧
      Resettled prio
        ({ k with msgqueue := Function.update k.msgqueue k.current rest }.setRdymsg tp status) k'
        (Function.update k.blocked tp none) := by
  obtain ⟨hc, hblocked⟩ := hs.consistent.setState hb .CH_STATE_SNDMSG rfl
  let k₁ : Kernel T M := { k.setState tp .CH_STATE_SNDMSG with
    msgqueue := Function.update k.msgqueue k.current rest }
  have hs₁ : k₁.Settled prio := ⟨⟨hc.sorted, hc.nodup, hc.ready, hc.current⟩, hs.highest⟩
  have hb₁ : k₁.blocked tp = some .CH_STATE_SNDMSG :=
    (congrFun hblocked tp).trans (Function.update_self ..)
  obtain ⟨k', hk', hr⟩ := chSchWakeupS_spec hs₁ hb₁ (by decide) status
  refine ⟨k₁, k', ?_, ?_, hk', hr.settled, ?_, hr.u, hr.msgqueue⟩
  · rw [chMsgTakeS, hq]
  · rw [chMsgGet, if_pos (blocked_eq_some hb₁).1, show k₁.u tp = _ from hu]
  · rw [hr.blocked, show k₁.blocked = _ from hblocked, Function.update_idem]

end Kernel

/-! ### Mailboxes -/

namespace Mailbox

variable {M : Type} {n : ℕ} {mb : Mailbox M n} {msg : M} {rest : List M}

theorem fetch_of_cons (hreset : mb.reset = false) (hq : mb.queue = msg :: rest) :
    ∃ mb', mb.chMBFetchTimeoutS = .message msg mb' ∧ mb'.queue = rest ∧ mb'.reset = false := by
  rw [chMBFetchTimeoutS, if_neg (by rw [hreset]; exact Bool.false_ne_true)]
  split
  · rename_i hnil
    rw [hq] at hnil
    cases hnil
  · rename_i msg' rest' hcons
    obtain ⟨rfl, rfl⟩ := List.cons.inj (hcons.symm.trans hq)
    exact ⟨_, rfl, rfl, hreset⟩

end Mailbox

namespace MailboxRing

variable {T M : Type} {n : ℕ} {prio : T → ℕ} {r : MailboxRing T M n} {mb mb' : Mailbox M n}
  {k k' : Kernel T M} {tq : List T}

/-- The slots in use hold the messages of the mailbox, oldest first. -/
structure Refines (r : MailboxRing T M n) (mb : Mailbox M n) : Prop where
  ok : RingBuffer.Ok n r.rdptr r.wrptr r.cnt
  queue : RingBuffer.contents r.buffer n r.rdptr r.cnt = mb.queue
  reset : r.reset = mb.reset

namespace Refines

theorem of_same (h : r.Refines mb) (hq : mb'.queue = mb.queue) (hr : mb'.reset = mb.reset) :
    r.Refines mb' := ⟨h.ok, h.queue.trans hq.symm, h.reset.trans hr.symm⟩

theorem withReaders (h : r.Refines mb) (tq : List T) : { r with qr := tq }.Refines mb :=
  ⟨h.ok, h.queue, h.reset⟩

theorem cnt_eq (h : r.Refines mb) : r.cnt = mb.queue.length := by
  rw [← h.queue, RingBuffer.contents_length]

theorem free_eq (h : r.Refines mb) : r.chMBGetFreeCountI = mb.chMBGetFreeCountI :=
  congrArg (n - ·) h.cnt_eq

variable [DecidableEq T]

/-- Posting a message does to the ring what it does to the list. -/
theorem chMBPostI (h : r.Refines mb)
    (hd : k.chThdDequeueNextI prio r.qr .MSG_OK = some (tq, k')) (msg : M) :
    ∃ r', r.chMBPostI prio k msg = some ((mb.chMBPostI msg).1, r',
        if (mb.chMBPostI msg).1 = .MSG_OK then k' else k) ∧
      r'.Refines (mb.chMBPostI msg).2 ∧
      r'.qr = if (mb.chMBPostI msg).1 = .MSG_OK then tq else r.qr := by
  rw [MailboxRing.chMBPostI, Mailbox.chMBPostI, h.reset, h.free_eq]
  by_cases hreset : mb.reset = true
  · rw [if_pos hreset, if_pos hreset]
    exact ⟨r, rfl, h, rfl⟩
  rw [if_neg hreset, if_neg hreset]
  by_cases hfree : 0 < mb.chMBGetFreeCountI
  · rw [if_pos hfree, dif_pos hfree, hd]
    have hroom : r.cnt < n := Nat.lt_of_sub_pos (h.free_eq.symm ▸ hfree : 0 < r.chMBGetFreeCountI)
    refine ⟨_, rfl, ⟨h.ok.push hroom, ?_, h.reset⟩, rfl⟩
    have hpush := RingBuffer.contents_push h.ok hroom fun i hi => Function.update_of_ne hi msg r.buffer
    rw [h.queue, Function.update_self] at hpush
    exact hpush
  · rw [if_neg hfree, dif_neg hfree]
    exact ⟨r, rfl, h, rfl⟩

/-- A reset empties both. -/
theorem chMBResetI (hn : 0 < n) (mb : Mailbox M n)
    (hd : k.chThdDequeueAllI prio .MSG_RESET r.qr = some (tq, k')) :
    ∃ r', r.chMBResetI prio k = some (r', k') ∧
      r'.chMBResumeX.Refines mb.chMBResetI.chMBResumeX ∧ r'.qr = tq := by
  rw [MailboxRing.chMBResetI, hd]
  exact ⟨_, rfl, ⟨.empty hn, rfl, rfl⟩, rfl⟩

/-- With a message there both hand out the oldest one. -/
theorem chMBFetchTimeoutS (h : r.Refines mb) (hreset : mb.reset = false) (hpos : 0 < r.cnt)
    (hk : k.chSchRescheduleS prio = some k') :
    ∃ msg mb', mb.chMBFetchTimeoutS = .message msg mb' ∧
      r.chMBFetchTimeoutS prio k = some (.message msg r.get k') ∧ r.get.Refines mb' := by
  obtain ⟨cnt, hcnt⟩ := Nat.exists_eq_succ_of_ne_zero hpos.ne'
  have hqueue := h.queue
  have hok := h.ok
  rw [hcnt] at hqueue hok
  rw [RingBuffer.contents_pop h.ok.rd_lt] at hqueue
  obtain ⟨mb', hfetch, hq', hr'⟩ := Mailbox.fetch_of_cons hreset hqueue.symm
  have hpred : r.cnt - 1 = cnt := by rw [hcnt, Nat.succ_sub_one]
  refine ⟨_, mb', hfetch, ?_, ?_, ?_, ?_⟩
  · rw [MailboxRing.chMBFetchTimeoutS, if_neg (by rw [h.reset, hreset]; exact Bool.false_ne_true),
      if_pos (show 0 < r.chMBGetUsedCountI from hpos), hk]
    rfl
  · rw [get, hpred]
    exact hok.pop
  · rw [get, hpred, hq']
  · exact (h.reset.trans hreset).trans hr'.symm

end Refines

end MailboxRing

end Stmdsp
