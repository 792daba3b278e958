import Stmdsp.Proofs.SerialSides

/-! The transmitting side of the serial driver: what the thread has written is what the
host has received, what the TX FIFO holds, what the first full buffer has left to send,
and the rest of the output queue, in that order. -/

namespace Stmdsp

namespace SerialUSB

open OutSide

variable {s : SerialUSB}

theorem sentOff_of_not {o : OutSide} (h : o.transmitting = false) : o.sentOff = 0 :=
  if_neg (by rw [h]; exact Bool.false_ne_true)

theorem sentOff_of {o : OutSide} (h : o.transmitting = true) : o.sentOff = o.isp.txcnt := if_pos h

/-! ### Transfers started -/

/-- The first full buffer goes into transfer. -/
theorem transmitFull_spec (hb : s.outSide.Base) (hepc : s.usbp.epc = true)
    (ht : s.usbp.transmitting = false) (hfull : s.obqueue.bcounter < s.obqueue.bn)
    (hquiet : s.otg.daintmsk = true → s.otg.ie.fifo = [] ∧ s.otg.ie.xfrc = false) :
    ∃ s', s.transmitFull = some s' ∧ s'.link = s.link ∧ s'.inSide = s.inSide ∧ s'.outSide.Inv := by
  have hq : s.obqueue.OutOk := hb.queue
  have hpos := hq.head_pos hfull
  rw [transmitFull, hq.getFull hfull]
  refine ⟨_, if_pos ⟨ht, hepc⟩, rfl, rfl, ⟨⟨⟨hb.queue, hb.bsize, hb.bn, fun _ => hepc, hb.reached, ?_,
    ⟨hb.writer.idle, hb.writer.busy, hb.writer.left, hb.writer.writes, hb.writer.awake,
      hb.writer.no_timeout, hb.writer.asleep⟩, hb.resumed⟩, ?_⟩, fun _ => .inl rfl⟩⟩
  · intro hon
    have hexact := hb.exact hon
    rw [sentOff_of_not ht] at hexact
    exact hexact
  · intro hon
    obtain ⟨hfifo, hxfrc⟩ := hquiet hon
    have hpkt : (if s.obqueue.size s.obqueue.brdptr = 0 then 1
        else (s.obqueue.size s.obqueue.brdptr + EP1_MAXSIZE - 1) / EP1_MAXSIZE) =
        (s.obqueue.size s.obqueue.brdptr - 0 + EP1_MAXSIZE - 1) / EP1_MAXSIZE :=
      if_neg (Nat.ne_of_gt hpos)
    have hnil : 0 = 0 + s.otg.ie.fifo.flatten.length := by
      rw [hfifo]
      rfl
    exact .sending 0 ⟨rfl, hfull, rfl, rfl, rfl, hnil, rfl, hxfrc, rfl, hpos, hpkt, rfl, .inl hfifo,
      fun _ => rfl⟩

theorem phase_quiet {o : OutSide} (h : o.Phase) (ht : o.transmitting = false) : o.Idle := by
  cases h with
  | idle h => exact h
  | sending _ h => exact Bool.noConfusion (ht.symm.trans h.transmitting)
  | sent h => exact Bool.noConfusion (ht.symm.trans h.transmitting)
  | ending h => exact Bool.noConfusion (ht.symm.trans h.transmitting)

/-- A posted buffer is sent at once, or when the transfer in progress is through. -/
theorem obnotify_spec (hl : s.link.Ok) (hc : s.outSide.Core)
    (hfull : s.obqueue.bcounter < s.obqueue.bn) :
    ∃ s', s.obnotify = some s' ∧ s'.link = s.link ∧ s'.inSide = s.inSide ∧ s'.outSide.Inv := by
  rw [obnotify]
  by_cases hact : s.active = false
  · rw [if_pos hact]
    refine ⟨s, rfl, rfl, rfl, hc, ?_⟩
    intro hon
    rw [active_of_on hl hon] at hact
    cases hact
  rw [if_neg hact]
  by_cases ht : s.usbp.transmitting = true
  · rw [if_pos ht]
    exact ⟨s, rfl, rfl, rfl, hc, fun _ => .inl ht⟩
  · rw [if_neg ht]
    rw [Bool.not_eq_false] at hact
    rw [Bool.not_eq_true] at ht
    refine transmitFull_spec hc.base (epc_of_active hl hact) ht hfull ?_
    intro hon
    have hidle := phase_quiet (hc.phase hon) ht
    exact ⟨hidle.fifo, hidle.xfrc⟩

/-- Posting what has been begun keeps the order of the bytes. -/
theorem base_of_flush (hb : s.outSide.Base) {q : IoBuffersQueue} {n : ℕ}
    (hposted : s.obqueue.PostedOut q n) (hnil : s.obqueue.obqFull = [])
    (hfull : q.obqFull = [s.obqueue.begun]) : (outSide { s with obqueue := q }).Base := by
  have hpending : q.pending = s.obqueue.pending := by
    rw [IoBuffersQueue.pending, hfull, hposted.begun, IoBuffersQueue.pending, hnil,
      List.flatten_singleton, List.append_nil, List.flatten_nil, List.nil_append]
  have hwait : s.obqueue.waiting = q.waiting := hposted.waiting.symm
  refine ⟨hposted.ok, hposted.bsize.trans hb.bsize, hposted.bn.trans hb.bn, hb.epc, hb.reached, ?_,
    ⟨?_, ?_, hb.writer.left, hb.writer.writes, ?_, ?_, ?_⟩,
    fun hon => hposted.suspended.trans (hb.resumed hon)⟩
  · intro hon
    have hexact := hb.exact hon
    rw [show s.outSide.q.pending = q.pending from hpending.symm] at hexact
    exact hexact
  · intro hidle
    exact hwait ▸ hb.writer.idle hidle
  · intro hbusy
    exact absurd hposted.ptr hbusy
  · intro hon hwrites
    exact hwait ▸ hb.writer.awake hon hwrites
  · exact hwait ▸ hb.writer.no_timeout
  · intro hsleep
    -- A sleeping thread has found all buffers full.
    have hzero : s.obqueue.bcounter = 0 := (hb.writer.asleep (hwait.trans hsleep)).1
    have hbn : s.obqueue.bcounter = s.obqueue.bn := hb.queue.obqFull_eq_nil_iff.mp hnil
    have hpos : 0 < s.obqueue.bn := hb.queue.bn_pos
    omega

/-- The start of a frame: what has been begun is sent when nothing else is. -/
theorem sduSOFHookI_spec (hl : s.link.Ok) (hi : s.outSide.Inv) :
    ∃ s', s.sduSOFHookI = some s' ∧ s'.link = s.link ∧ s'.inSide = s.inSide ∧ s'.outSide.Inv := by
  have hc := hi.core
  rw [sduSOFHookI]
  by_cases hact : s.active = false
  · rw [if_pos hact]
    exact ⟨s, rfl, rfl, rfl, hi⟩
  rw [if_neg hact]
  by_cases ht : s.usbp.transmitting = true
  · rw [if_pos ht]
    exact ⟨s, rfl, rfl, rfl, hi⟩
  rw [if_neg ht]
  rcases hc.base.queue.tryFlush with ⟨hflush, -⟩ | ⟨hnil, hbegun, q, hflush, hposted, hfull⟩
  · rw [show s.obqueue.obqTryFlushI = (false, s.obqueue) from hflush]
    exact ⟨s, rfl, rfl, rfl, hi⟩
  · rw [show s.obqueue.obqTryFlushI = (true, q) from hflush]
    rw [Bool.not_eq_false] at hact
    rw [Bool.not_eq_true] at ht
    have hlt : q.bcounter < q.bn := by
      refine Nat.lt_of_le_of_ne hposted.ok.counter (hposted.ok.obqFull_eq_nil_iff.not.mp ?_)
      rw [hfull]
      exact List.cons_ne_nil _ _
    refine transmitFull_spec (s := { s with obqueue := q }) (base_of_flush hc.base hposted hnil hfull)
      (epc_of_active hl hact) ht hlt ?_
    intro hon
    have hidle := phase_quiet (hc.phase hon) ht
    exact ⟨hidle.fifo, hidle.xfrc⟩

/-! ### Transfers completed -/

theorem and_maxsize (n : ℕ) : n &&& (EP1_MAXSIZE - 1) = n % EP1_MAXSIZE :=
  Nat.and_two_pow_sub_one_eq_mod n 6

/-- After a transfer: the next buffer, an empty packet to end the host's transfer, or
nothing where a short packet has ended it. -/
theorem transmitNext_spec (hb : s.outSide.Base) (hepc : s.usbp.epc = true)
    (ht : s.usbp.transmitting = false) (hfifo : s.otg.ie.fifo = [])
    (hen : s.otg.ie.epena = false) (hx : s.otg.ie.xfrc = false) {n : ℕ}
    (hdone : s.usbp.inState.txsize ≤ s.usbp.inState.txcnt)
    (hend : 0 < n ∧ n % EP1_MAXSIZE = 0 ∨ s.outSide.Ended) :
    ∃ s', s.transmitNext n = some s' ∧ s'.link = s.link ∧ s'.inSide = s.inSide ∧
      s'.outSide.Inv := by
  have hq : s.obqueue.OutOk := hb.queue
  rcases Nat.lt_or_eq_of_le hq.counter with hlt | heq
  · have hspec := transmitFull_spec hb hepc ht hlt fun _ => ⟨hfifo, hx⟩
    rw [transmitFull, hq.getFull hlt] at hspec
    rw [transmitNext, hq.getFull hlt]
    exact hspec
  rw [transmitNext, hq.getFull_none heq]
  by_cases hzero : 0 < n ∧ n &&& (EP1_MAXSIZE - 1) = 0
  · refine ⟨_, (if_pos hzero).trans (if_pos ⟨ht, hepc⟩), rfl, rfl, ⟨⟨⟨hb.queue, hb.bsize, hb.bn,
      fun _ => hepc, hb.reached, ?_, ⟨hb.writer.idle, hb.writer.busy, hb.writer.left,
        hb.writer.writes, hb.writer.awake, hb.writer.no_timeout, hb.writer.asleep⟩, hb.resumed⟩, ?_⟩,
      fun _ => .inl rfl⟩⟩
    · intro hon
      have hexact := hb.exact hon
      rw [sentOff_of_not ht] at hexact
      exact hexact
    · intro _
      exact .ending ⟨rfl, rfl, rfl, rfl, hfifo, .inl ⟨rfl, hx, rfl, rfl⟩⟩
  · refine ⟨s, if_neg hzero, rfl, rfl, ⟨⟨hb, ?_⟩, fun _ => .inr heq⟩⟩
    intro _
    rw [and_maxsize] at hzero
    exact .idle ⟨ht, hfifo, hen, hx, hdone, hend.resolve_left hzero⟩

/-- The transfer ended, with the queue as it is then. -/
def doneTransmitting (s : SerialUSB) (q : IoBuffersQueue) : SerialUSB :=
  { s with
    obqueue := q
    usbp := { s.usbp with transmitting := false }
    otg := { s.otg with ie := { s.otg.ie with xfrc := false } } }

/-- With the transferred buffer released, the host has what is no longer queued. -/
theorem base_doneTransmitting (hb : s.outSide.Base) (hon : s.otg.daintmsk = true)
    (hen : s.otg.ie.epena = false) {q : IoBuffersQueue} (hq : q.OutOk)
    (hpending : q.pending = s.obqueue.pending.drop s.outSide.sentOff)
    (hptr : q.ptr = s.obqueue.ptr)
    (hw : q.waiting = s.obqueue.waiting ∧ q.bcounter = s.obqueue.bcounter ∨
      q.waiting = s.obqueue.waiting.dequeue .MSG_OK)
    (hbsize : q.bsize = s.obqueue.bsize) (hbn : q.bn = s.obqueue.bn)
    (hsusp : q.suspended = s.obqueue.suspended) : (s.doneTransmitting q).outSide.Base := by
  have hstay : s.obqueue.waiting = .empty → q.waiting = .empty := by
    intro hold
    rcases hw with ⟨hw, -⟩ | hw
    · exact hw.trans hold
    · rw [hw, hold, ThreadsQueue.dequeue_empty]
  have hne : ∀ msg, msg ≠ .MSG_OK → s.obqueue.waiting ≠ .resumed msg → q.waiting ≠ .resumed msg := by
    intro msg hmsg hold
    rcases hw with ⟨hw, -⟩ | hw
    · rwa [hw]
    · rw [hw]
      exact ThreadsQueue.dequeue_ne hold hmsg.symm
  refine ⟨hq, hbsize.trans hb.bsize, hbn.trans hb.bn, ?_, hb.reached, ?_,
    ⟨?_, ?_, hb.writer.left, hb.writer.writes, ?_, ?_, ?_⟩, fun hon => hsusp.trans (hb.resumed hon)⟩
  · rintro (h | h | h)
    · exact Bool.noConfusion h
    · exact Bool.noConfusion (h.symm.trans hen)
    · exact Bool.noConfusion h
  · intro _
    have hexact := hb.exact hon
    rw [show s.outSide.q.pending.drop s.outSide.sentOff = q.pending from hpending.symm] at hexact
    exact hexact
  · intro hidle
    exact hstay (hb.writer.idle hidle)
  · intro hbusy
    exact hstay (hb.writer.busy (hptr ▸ hbusy))
  · intro _ hwrites
    exact hne _ (by decide) (hb.writer.awake hon hwrites)
  · exact hne _ (by decide) hb.writer.no_timeout
  · intro hwait
    rcases hw with ⟨hw, hcnt⟩ | hw
    · exact ⟨hcnt.trans (hb.writer.asleep (hw.symm.trans hwait)).1, hsusp.trans (hb.resumed hon)⟩
    · exact absurd (hw.symm.trans hwait) ThreadsQueue.dequeue_ne_waiting

/-- A completed transfer, with the queue as it is once the buffer is released. -/
structure Completed (s : SerialUSB) (q : IoBuffersQueue) : Prop where
  next : s.otg_epin_handler = (s.doneTransmitting q).transmitNext s.usbp.inState.txsize
  base : (s.doneTransmitting q).outSide.Base
  transmitting : s.usbp.transmitting = true
  fifo : s.otg.ie.fifo = []
  epena : s.otg.ie.epena = false
  txcnt : s.usbp.inState.txsize ≤ s.usbp.inState.txcnt
  ended : 0 < s.usbp.inState.txsize ∧ s.usbp.inState.txsize % EP1_MAXSIZE = 0 ∨
    (s.doneTransmitting q).outSide.Ended

theorem completed (hi : s.outSide.Inv) (hon : s.otg.daintmsk = true) (hx : s.otg.ie.xfrc = true) :
    ∃ q, s.Completed q := by
  have hb := hi.core.base
  cases hi.core.phase hon with
  | idle h => exact Bool.noConfusion (hx.symm.trans h.xfrc)
  | sending _ h => exact Bool.noConfusion (hx.symm.trans h.xfrc)
  | sent h =>
    have htot : s.usbp.inState.totsize = s.usbp.inState.txsize := h.totsize
    have hsize : s.usbp.inState.txsize = s.obqueue.size s.obqueue.brdptr := h.txsize
    have hcnt : s.usbp.inState.txcnt = s.usbp.inState.txsize := h.txcnt
    have hpos : 0 < s.usbp.inState.txsize := by
      rw [hsize]
      exact hb.queue.head_pos h.full
    obtain ⟨q, hrel, hreleased⟩ := hb.queue.release h.full
    have hoff : s.outSide.sentOff = s.obqueue.size s.obqueue.brdptr := by
      rw [sentOff_of h.transmitting]
      exact hcnt.trans hsize
    have hbase := base_doneTransmitting hb hon h.epena hreleased.ok
      (by rw [hoff]; exact hreleased.pending) hreleased.ptr (.inr hreleased.waiting)
      hreleased.bsize hreleased.bn hreleased.suspended
    refine ⟨q, ⟨?_, hbase, h.transmitting, h.fifo, h.epena, le_of_eq hcnt.symm,
      h.ended.imp (fun hm => ⟨hpos, hm⟩) id⟩⟩
    rw [otg_epin_handler]
    simp only [htot, Nat.lt_irrefl, if_false, sduDataTransmitted, hpos, if_true]
    rw [show s.obqueue.obqReleaseEmptyBufferI = some q from hrel]
    rfl
  | ending h =>
    have htot : s.usbp.inState.totsize = 0 := h.totsize
    have hsize : s.usbp.inState.txsize = 0 := h.txsize
    rcases h.running with ⟨-, hx', -⟩ | ⟨hen, -, hended⟩
    · exact Bool.noConfusion (hx.symm.trans hx')
    have hoff : s.outSide.sentOff = 0 := by
      rw [sentOff_of h.transmitting]
      exact h.txcnt
    have hbase := base_doneTransmitting hb hon hen hb.queue
      (by rw [hoff, List.drop_zero]; rfl) rfl (.inl ⟨rfl, rfl⟩) rfl rfl rfl
    refine ⟨s.obqueue, ⟨?_, hbase, h.transmitting, h.fifo, hen, ?_, .inr hended⟩⟩
    · rw [otg_epin_handler]
      simp only [htot, hsize, Nat.lt_irrefl, if_false, sduDataTransmitted]
      rfl
    · rw [hsize]
      exact Nat.zero_le _

/-- The interrupt of a completed transfer. -/
theorem otg_epin_handler_spec (hi : s.outSide.Inv)
    (hon : s.otg.daintmsk = true) (hx : s.otg.ie.xfrc = true) :
    ∃ s', s.otg_epin_handler = some s' ∧ s'.link = s.link ∧ s'.inSide = s.inSide ∧
      s'.outSide.Inv := by
  have hepc : s.usbp.epc = true := hi.core.base.epc (.inr (.inr hx))
  obtain ⟨q, h⟩ := completed hi hon hx
  rw [h.next]
  exact transmitNext_spec h.base hepc rfl h.fifo h.epena rfl h.txcnt h.ended

/-! ### The TX FIFO -/

section Fifo

variable {mem : ℕ → UInt8} {isp : USBInEndpointState} {fifo : List (List UInt8)}

theorem fillFifo_done (h : isp.txsize ≤ isp.txcnt) : fillFifo mem isp fifo = (isp, fifo, true) := by
  rw [fillFifo, dif_pos h]

/-- A packet of full size leaves no space behind it. -/
theorem fillFifo_full {p : List UInt8} (h : isp.txcnt < isp.txsize) (hp : p.length = EP1_MAXSIZE) :
    fillFifo mem isp [p] = (isp, [p], false) := by
  have hspace : dtxfsts [p] = 0 := by
    rw [dtxfsts, List.map_singleton, List.sum_singleton, hp]
    rfl
  have hn : 0 < min (isp.txsize - isp.txcnt) EP1_MAXSIZE :=
    Nat.lt_min.mpr ⟨Nat.sub_pos_of_lt h, by decide⟩
  rw [fillFifo, dif_neg (Nat.not_le_of_lt h)]
  simp only [hspace, hn, if_true]

/-- An empty FIFO gets the next packet, and no more. -/
theorem fillFifo_empty (h : isp.txcnt < isp.txsize) {n : ℕ}
    (hn : n = min (isp.txsize - isp.txcnt) EP1_MAXSIZE) :
    fillFifo mem isp [] = ({ isp with txbuf := isp.txbuf + n, txcnt := isp.txcnt + n },
      [slice mem isp.txbuf n], decide (isp.txsize ≤ isp.txcnt + n)) := by
  have hspace : ¬ dtxfsts [] < min (isp.txsize - isp.txcnt) EP1_MAXSIZE :=
    Nat.not_lt_of_le (Nat.min_le_right _ _)
  rw [fillFifo, dif_neg (Nat.not_le_of_lt h)]
  rw [← hn] at hspace
  simp only [← hn, hspace, if_false, List.nil_append]
  by_cases hend : isp.txsize ≤ isp.txcnt + n
  · rw [fillFifo_done hend, decide_eq_true hend]
  · have hfull : n = EP1_MAXSIZE := by
      rw [hn]
      apply Nat.min_eq_right
      omega
    rw [fillFifo_full (Nat.lt_of_not_le hend) (by rw [slice_length, hfull]),
      decide_eq_false hend]

/-- With nothing left to put there, the handler masks its interrupt. -/
theorem otg_txfifo_handler_done (hi : s.outSide.Inv)
    (h : s.usbp.inState.txsize ≤ s.usbp.inState.txcnt) :
    s.otg_txfifo_handler.link = s.link ∧ s.otg_txfifo_handler.inSide = s.inSide ∧
      s.otg_txfifo_handler.outSide.Inv := by
  have hb := hi.core.base
  rw [otg_txfifo_handler, fillFifo_done h]
  refine ⟨rfl, rfl, ⟨⟨⟨hb.queue, hb.bsize, hb.bn, hb.epc, hb.reached, hb.exact,
    ⟨hb.writer.idle, hb.writer.busy, hb.writer.left, hb.writer.writes, hb.writer.awake,
      hb.writer.no_timeout, hb.writer.asleep⟩, hb.resumed⟩, ?_⟩, hi.sends⟩⟩
  intro hon
  cases hi.core.phase hon with
  | idle hp => exact .idle ⟨hp.1, hp.2, hp.3, hp.4, hp.5, hp.6⟩
  | sending acked hp =>
    exact .sending acked ⟨hp.1, hp.2, hp.3, hp.4, hp.5, hp.6, hp.7, hp.8, hp.9, hp.10, hp.11, hp.12,
      hp.13, fun hlt => absurd h (Nat.not_le_of_lt hlt)⟩
  | sent hp => exact .sent ⟨hp.1, hp.2, hp.3, hp.4, hp.5, hp.6, hp.7, hp.8, hp.9⟩
  | ending hp => exact .ending ⟨hp.1, hp.2, hp.3, hp.4, hp.5, hp.6⟩

theorem sending_txcnt_le {o : OutSide} {acked : ℕ} (h : o.Sending acked) :
    o.isp.txcnt ≤ o.isp.txsize := by
  have hlt := h.acked_lt
  rw [h.txcnt]
  rcases h.fifo with hnil | ⟨p, hp, hlen⟩
  · rw [hnil]
    exact Nat.le_of_lt hlt
  · rw [hp, List.flatten_singleton, hlen]
    omega

/-- The driver with the next `n` bytes of the transfer in the FIFO. -/
def putPacket (s : SerialUSB) (n : ℕ) : SerialUSB :=
  { s with
    usbp := { s.usbp with inState := { s.usbp.inState with
      txbuf := s.usbp.inState.txbuf + n
      txcnt := s.usbp.inState.txcnt + n } }
    otg := { s.otg with
      diepempmsk := s.otg.diepempmsk && !decide (s.usbp.inState.txsize ≤ s.usbp.inState.txcnt + n)
      ie := { s.otg.ie with fifo := [slice s.obqueue.mem s.usbp.inState.txbuf n] } } }

/-- The next packet goes into the FIFO, from where the transfer is in its buffer. -/
theorem otg_txfifo_handler_fill (hi : s.outSide.Inv) (hon : s.otg.daintmsk = true)
    (hmsk : s.otg.diepempmsk = true) {acked : ℕ} (h : s.outSide.Sending acked)
    (hnil : s.otg.ie.fifo = []) (hlt : s.usbp.inState.txcnt < s.usbp.inState.txsize) :
    s.otg_txfifo_handler.link = s.link ∧ s.otg_txfifo_handler.inSide = s.inSide ∧
      s.otg_txfifo_handler.outSide.Inv := by
  have hb := hi.core.base
  have hq : s.obqueue.OutOk := hb.queue
  have hsize : s.usbp.inState.txsize = s.obqueue.size s.obqueue.brdptr := h.txsize
  have hbuf : s.usbp.inState.txbuf =
    s.obqueue.brdptr + SIZEOF_SIZE_T + s.usbp.inState.txcnt := h.txbuf
  have hacked : s.usbp.inState.txcnt = acked := by
    have hcnt : s.usbp.inState.txcnt = acked + s.otg.ie.fifo.flatten.length := h.txcnt
    rw [hcnt, hnil]
    rfl
  have hoff : s.outSide.sentOff = s.usbp.inState.txcnt := sentOff_of h.transmitting
  set n := min (s.usbp.inState.txsize - s.usbp.inState.txcnt) EP1_MAXSIZE with hn
  have hle : s.usbp.inState.txcnt + n ≤ s.obqueue.size s.obqueue.brdptr := by omega
  have hexact := hb.exact hon
  rw [hoff] at hexact
  have hsplit := hq.pending_drop h.full (k := s.usbp.inState.txcnt) (by omega)
  have hsplit' := hq.pending_drop h.full (k := s.usbp.inState.txcnt + n) hle
  have hdata : s.obqueue.pending.drop s.usbp.inState.txcnt =
      slice s.obqueue.mem s.usbp.inState.txbuf n ++
        s.obqueue.pending.drop (s.usbp.inState.txcnt + n) := by
    rw [hsplit, hsplit', ← List.append_assoc, hbuf, ← Nat.add_assoc, ← slice_add]
    congr 2
    omega
  have hgone : (s.putPacket n).outSide.gone =
      s.outSide.gone ++ slice s.obqueue.mem s.usbp.inState.txbuf n := by
    show s.outSide.received.flatten ++ [slice s.obqueue.mem s.usbp.inState.txbuf n].flatten = _
    rw [gone, show s.outSide.ie.fifo = [] from hnil, List.flatten_singleton, List.flatten_nil,
      List.append_nil]
  have hall : s.outSide.gone ++ slice s.obqueue.mem s.usbp.inState.txbuf n ++
      s.obqueue.pending.drop (s.usbp.inState.txcnt + n) = s.outSide.written := by
    rw [← hexact, List.append_assoc, ← hdata]
    rfl
  have hs : s.otg_txfifo_handler = s.putPacket n := by
    simp only [otg_txfifo_handler, hnil, fillFifo_empty hlt hn]
    rfl
  have hoff' : (s.putPacket n).outSide.sentOff = s.usbp.inState.txcnt + n :=
    sentOff_of (o := (s.putPacket n).outSide) h.transmitting
  rw [hs]
  refine ⟨rfl, rfl, ⟨⟨⟨hb.queue, hb.bsize, hb.bn, hb.epc, ?_, ?_,
    ⟨hb.writer.idle, hb.writer.busy, hb.writer.left, hb.writer.writes, hb.writer.awake,
      hb.writer.no_timeout, hb.writer.asleep⟩, hb.resumed⟩, ?_⟩, hi.sends⟩⟩
  · rw [← hgone] at hall
    exact ⟨_, hall⟩
  · intro _
    rw [← hgone] at hall
    rw [hoff']
    exact hall
  · intro _
    refine .sending acked ⟨h.transmitting, h.full, ?_, h.txsize, h.totsize, ?_, h.epena, h.xfrc,
      h.whole, h.acked_lt, h.pktcnt, h.xfrsiz, .inr ⟨_, rfl, ?_⟩, ?_⟩
    · show s.usbp.inState.txbuf + n = _ + (s.usbp.inState.txcnt + n)
      rw [hbuf, Nat.add_assoc]
      rfl
    · show s.usbp.inState.txcnt + n =
        acked + [slice s.obqueue.mem s.usbp.inState.txbuf n].flatten.length
      rw [List.flatten_singleton, slice_length, hacked]
    · rw [slice_length, hn, hacked]
      rfl
    · intro hlt'
      have hlt'' : s.usbp.inState.txcnt + n < s.usbp.inState.txsize := hlt'
      show (s.otg.diepempmsk && !decide (s.usbp.inState.txsize ≤ s.usbp.inState.txcnt + n)) = true
      rw [hmsk, decide_eq_false (Nat.not_le_of_lt hlt'')]
      rfl

/-- The FIFO interrupt, in every phase. -/
theorem otg_txfifo_handler_spec (hi : s.outSide.Inv) (hon : s.otg.daintmsk = true)
    (hmsk : s.otg.diepempmsk = true) :
    s.otg_txfifo_handler.link = s.link ∧ s.otg_txfifo_handler.inSide = s.inSide ∧
      s.otg_txfifo_handler.outSide.Inv := by
  cases hi.core.phase hon with
  | idle h => exact otg_txfifo_handler_done hi h.done
  | sent h => exact otg_txfifo_handler_done hi (le_of_eq h.txcnt.symm)
  | ending h => exact otg_txfifo_handler_done hi (by
      rw [show s.usbp.inState.txsize = 0 from h.txsize]
      exact Nat.zero_le _)
  | sending acked h =>
    rcases Nat.lt_or_ge s.usbp.inState.txcnt s.usbp.inState.txsize with hlt | hge
    · rcases h.fifo with hnil | ⟨p, hp, hlen⟩
      · exact otg_txfifo_handler_fill hi hon hmsk h hnil hlt
      · have hcnt : s.usbp.inState.txcnt = acked + s.otg.ie.fifo.flatten.length := h.txcnt
        have hp' : s.otg.ie.fifo = [p] := hp
        have hlen' : p.length = min (s.usbp.inState.txsize - acked) EP1_MAXSIZE := hlen
        rw [hp', List.flatten_singleton] at hcnt
        have hfull : p.length = EP1_MAXSIZE := by omega
        -- The FIFO is full, and nothing changes.
        have hsame : s.otg_txfifo_handler = s := by
          simp only [otg_txfifo_handler, hp', fillFifo_full hlt hfull, Bool.not_false, Bool.and_true]
          rw [← hp']
        rw [hsame]
        exact ⟨rfl, rfl, hi⟩
    · exact otg_txfifo_handler_done hi hge

end Fifo

/-! ### Packets taken by the host -/

theorem pktcnt_last {n : ℕ} (hpos : 0 < n) (hle : n ≤ EP1_MAXSIZE) :
    (n + EP1_MAXSIZE - 1) / EP1_MAXSIZE - 1 = 0 := by
  simp only [EP1_MAXSIZE] at *
  omega

theorem pktcnt_more {n : ℕ} (hlt : EP1_MAXSIZE < n) :
    (n + EP1_MAXSIZE - 1) / EP1_MAXSIZE - 1 = (n - EP1_MAXSIZE + EP1_MAXSIZE - 1) / EP1_MAXSIZE ∧
      (n + EP1_MAXSIZE - 1) / EP1_MAXSIZE - 1 ≠ 0 := by
  simp only [EP1_MAXSIZE] at *
  omega

theorem ended_append {o : OutSide} {l : List (List UInt8)} {p : List UInt8}
    (ho : o.received = l ++ [p]) (hp : p.length < EP1_MAXSIZE) : o.Ended := by
  intro p' hp'
  rw [ho, List.getLast?_concat] at hp'
  obtain rfl := Option.some.inj hp'
  exact hp

/-- The bytes the host and the FIFO have together stay the same. -/
theorem sendPacket_gone : s.sendPacket.outSide.gone = s.outSide.gone := by
  show (s.session.received ++ [s.otg.ie.fifo.headD []]).flatten ++ s.otg.ie.fifo.tail.flatten =
    s.session.received.flatten ++ s.otg.ie.fifo.flatten
  cases s.otg.ie.fifo with
  | nil => simp
  | cons p fifo => simp

theorem sendPacket_base (hb : s.outSide.Base) (hen : s.otg.ie.epena = true) :
    s.sendPacket.outSide.Base := by
  have hepc : s.usbp.epc = true := hb.epc (.inr (.inl hen))
  refine ⟨hb.queue, hb.bsize, hb.bn, fun _ => hepc, ?_, ?_, ⟨hb.writer.idle, hb.writer.busy,
    hb.writer.left, hb.writer.writes, hb.writer.awake, hb.writer.no_timeout, hb.writer.asleep⟩, hb.resumed⟩
  · rw [sendPacket_gone]
    exact hb.reached
  · intro hon
    rw [sendPacket_gone]
    exact hb.exact hon

/-- The last packet of a buffer. -/
theorem sendPacket_last {acked : ℕ} (h : s.outSide.Sending acked) {p : List UInt8}
    (hp : s.otg.ie.fifo = [p]) (hlen : p.length = s.usbp.inState.txsize - acked)
    (hle : p.length ≤ EP1_MAXSIZE) : s.sendPacket.outSide.Sent := by
  have hlt : acked < s.usbp.inState.txsize := h.acked_lt
  have hcnt : s.usbp.inState.txcnt = acked + s.otg.ie.fifo.flatten.length := h.txcnt
  have hpkt : s.otg.ie.pktcnt - 1 = 0 := by
    rw [show s.otg.ie.pktcnt = _ from h.pktcnt]
    exact pktcnt_last (Nat.sub_pos_of_lt hlt) (hlen ▸ hle)
  refine ⟨h.transmitting, h.full, h.txsize, h.totsize, ?_, ?_, ?_, ?_, ?_⟩
  · show s.usbp.inState.txcnt = s.usbp.inState.txsize
    rw [hcnt, hp, List.flatten_singleton]
    omega
  · show (s.otg.ie.epena && s.otg.ie.pktcnt - 1 != 0) = false
    rw [hpkt]
    exact Bool.and_false _
  · show (s.otg.ie.xfrc || s.otg.ie.pktcnt - 1 == 0) = true
    rw [hpkt]
    exact Bool.or_true _
  · show s.otg.ie.fifo.tail = []
    rw [hp]
    rfl
  · rcases Nat.lt_or_eq_of_le hle with hshort | hfull
    · refine .inr (ended_append (l := s.session.received) ?_ hshort)
      show s.session.received ++ [s.otg.ie.fifo.headD []] = _
      rw [hp]
      rfl
    · refine .inl ?_
      have hwhole : acked % EP1_MAXSIZE = 0 := h.whole
      show s.usbp.inState.txsize % EP1_MAXSIZE = 0
      rw [show s.usbp.inState.txsize = acked + EP1_MAXSIZE by omega, Nat.add_mod_right, hwhole]

/-- A packet with others behind it. -/
theorem sendPacket_more {acked : ℕ} (h : s.outSide.Sending acked) {p : List UInt8}
    (hp : s.otg.ie.fifo = [p]) (hlen : p.length = EP1_MAXSIZE)
    (hlt : EP1_MAXSIZE < s.usbp.inState.txsize - acked) :
    s.sendPacket.outSide.Sending (acked + EP1_MAXSIZE) := by
  have hcnt : s.usbp.inState.txcnt = acked + s.otg.ie.fifo.flatten.length := h.txcnt
  have hen : s.otg.ie.epena = true := h.epena
  have hx : s.otg.ie.xfrc = false := h.xfrc
  obtain ⟨hpkt, hne⟩ := pktcnt_more hlt
  have hcount : s.otg.ie.pktcnt = _ := h.pktcnt
  have hne' : s.otg.ie.pktcnt - 1 ≠ 0 := by
    rw [hcount]
    exact hne
  refine ⟨h.transmitting, h.full, h.txbuf, h.txsize, h.totsize, ?_, ?_, ?_, ?_, ?_, ?_, ?_, .inl ?_,
    h.filling⟩
  · show s.usbp.inState.txcnt = acked + EP1_MAXSIZE + s.otg.ie.fifo.tail.flatten.length
    rw [hcnt, hp, List.flatten_singleton, hlen]
    rfl
  · show (s.otg.ie.epena && s.otg.ie.pktcnt - 1 != 0) = true
    rw [hen, bne_iff_ne.mpr hne']
    rfl
  · show (s.otg.ie.xfrc || s.otg.ie.pktcnt - 1 == 0) = false
    rw [hx, beq_eq_false_iff_ne.mpr hne']
    rfl
  · rw [Nat.add_mod_right]
    exact h.whole
  · show acked + EP1_MAXSIZE < s.usbp.inState.txsize
    omega
  · show s.otg.ie.pktcnt - 1 = _
    rw [hcount, ← Nat.sub_sub]
    exact hpkt
  · show s.otg.ie.xfrsiz - (s.otg.ie.fifo.headD []).length = _
    rw [show s.otg.ie.xfrsiz = _ from h.xfrsiz, hp, ← Nat.sub_sub, ← hlen]
    rfl
  · show s.otg.ie.fifo.tail = []
    rw [hp]
    rfl

/-- The packet that ends a transfer of whole packets. -/
theorem sendPacket_ending (h : s.outSide.Ending) (hen : s.otg.ie.epena = true) :
    s.sendPacket.outSide.Ending := by
  have hfifo : s.otg.ie.fifo = [] := h.fifo
  rcases h.running with ⟨-, -, hpkt, -⟩ | ⟨hen', -⟩
  · have hpkt' : s.otg.ie.pktcnt - 1 = 0 := by rw [show s.otg.ie.pktcnt = 1 from hpkt]
    refine ⟨h.transmitting, h.txsize, h.totsize, h.txcnt, ?_, .inr ⟨?_, ?_, ?_⟩⟩
    · show s.otg.ie.fifo.tail = []
      rw [hfifo]
      rfl
    · show (s.otg.ie.epena && s.otg.ie.pktcnt - 1 != 0) = false
      rw [hpkt']
      exact Bool.and_false _
    · show (s.otg.ie.xfrc || s.otg.ie.pktcnt - 1 == 0) = true
      rw [hpkt']
      exact Bool.or_true _
    · refine ended_append (l := s.session.received) (p := []) ?_ (by decide)
      show s.session.received ++ [s.otg.ie.fifo.headD []] = _
      rw [hfifo]
      rfl
  · exact Bool.noConfusion (hen.symm.trans hen')

/-- A packet for the host. -/
theorem sendPacket_spec (hi : s.outSide.Inv) (hen : s.otg.ie.epena = true)
    (hany : s.otg.ie.fifo ≠ [] ∨ s.otg.ie.xfrsiz = 0) :
    s.sendPacket.link = s.link ∧ s.sendPacket.inSide = s.inSide ∧ s.sendPacket.outSide.Inv := by
  refine ⟨rfl, rfl, ⟨⟨sendPacket_base hi.core.base hen, ?_⟩, hi.sends⟩⟩
  intro hon
  cases hi.core.phase hon with
  | idle h => exact Bool.noConfusion (hen.symm.trans h.epena)
  | sent h => exact Bool.noConfusion (hen.symm.trans h.epena)
  | ending h => exact .ending (sendPacket_ending h hen)
  | sending acked h =>
    have hlt : acked < s.usbp.inState.txsize := h.acked_lt
    rcases h.fifo with hnil | ⟨p, hp, hlen⟩
    · have hsiz : s.otg.ie.xfrsiz = s.usbp.inState.txsize - acked := h.xfrsiz
      rcases hany with hany | hany
      · exact absurd hnil hany
      · omega
    · have hlen' : p.length = min (s.usbp.inState.txsize - acked) EP1_MAXSIZE := hlen
      rcases Nat.lt_or_ge EP1_MAXSIZE (s.usbp.inState.txsize - acked) with hmore | hlast
      · exact .sending _ (sendPacket_more h hp (by omega) hmore)
      · exact .sent (sendPacket_last h hp (by omega) (by omega))

/-! ### The thread that writes -/

/-- A call that wrote more bytes and goes on. -/
theorem writesOk_more {carried moved rest : List UInt8} {writes : List (List UInt8 × List UInt8)}
    (h : WritesOk (some (moved ++ rest)) writes) :
    WritesOk (some rest) (appendLast carried moved writes).2 := by
  cases h with
  | carried => exact .carried _
  | @within done put _ hall =>
    rw [appendLast_snoc, ← List.append_assoc]
    exact .within hall

/-- A call that wrote its last bytes. -/
theorem writesOk_last {carried moved : List UInt8} {writes : List (List UInt8 × List UInt8)}
    (h : WritesOk (some moved) writes) : WritesOk none (appendLast carried moved writes).2 := by
  cases h with
  | carried => exact .between (by simp [appendLast])
  | @within done put _ hall =>
    rw [appendLast_snoc]
    refine .between ?_
    rw [List.forall_mem_append, List.forall_mem_singleton]
    exact ⟨hall, rfl⟩

/-- What does not touch the queue's buffers, the transfer or the packets. -/
theorem phase_of_queue {o o' : OutSide} (h : o.Phase) (hon : o'.transmitting = o.transmitting)
    (hisp : o'.isp = o.isp) (hie : o'.ie = o.ie) (hemp : o'.empmsk = o.empmsk)
    (hrec : o'.received = o.received)
    (hhead : o.q.bcounter < o.q.bn → o'.q.bcounter < o'.q.bn ∧
      o'.q.brdptr = o.q.brdptr ∧ o'.q.size o'.q.brdptr = o.q.size o.q.brdptr) : o'.Phase := by
  obtain ⟨on', epc', q', tr', isp', ie', emp', w', rec', car', wr'⟩ := o'
  obtain ⟨on, epc, q, tr, isp, ie, emp, w, rec, car, wr⟩ := o
  simp only at hon hisp hie hemp hrec hhead
  subst hon hisp hie hemp hrec
  cases h with
  | idle h => exact .idle ⟨h.1, h.2, h.3, h.4, h.5, h.6⟩
  | sending acked h =>
    obtain ⟨hlt, hrd, hsize⟩ := hhead h.full
    exact .sending acked ⟨h.1, hlt, hrd ▸ h.3, hsize ▸ h.4, h.5, h.6, h.7, h.8, h.9, h.10, h.11,
      h.12, h.13, h.14⟩
  | sent h =>
    obtain ⟨hlt, hrd, hsize⟩ := hhead h.full
    exact .sent ⟨h.1, hlt, hsize ▸ h.3, h.4, h.5, h.6, h.7, h.8, h.9⟩
  | ending h => exact .ending ⟨h.1, h.2, h.3, h.4, h.5, h.6⟩

theorem sentOff_le {o : OutSide} (hb : o.Base) (h : o.Phase) : o.sentOff ≤ o.q.pending.length := by
  cases h with
  | idle h =>
    rw [sentOff_of_not h.transmitting]
    exact Nat.zero_le _
  | sending acked h =>
    rw [sentOff_of h.transmitting]
    exact (sending_txcnt_le h).trans (h.txsize ▸ hb.queue.head_le_pending h.full)
  | sent h =>
    rw [sentOff_of h.transmitting, h.txcnt, h.txsize]
    exact hb.queue.head_le_pending h.full
  | ending h =>
    rw [sentOff_of h.transmitting, h.txcnt]
    exact Nat.zero_le _

/-- The driver with bytes moved from the thread. -/
def putBytes (s : SerialUSB) (bytes moved : List UInt8) (q : IoBuffersQueue) : SerialUSB :=
  { s with
    obqueue := q
    session := s.session.wrote moved
    writer := if bytes.length ≤ moved.length then none else some (bytes.drop moved.length) }

theorem core_putBytes (hc : s.outSide.Core) {bytes : List UInt8} (hcall : s.writer = some bytes)
    {moved : List UInt8} {notify : Bool} {q : IoBuffersQueue}
    (hput : s.obqueue.PutOut q moved bytes notify)
    (hw : q.waiting = .empty ∨ s.obqueue.ptr ≠ none ∧ q.waiting = s.obqueue.waiting) :
    (s.putBytes bytes moved q).outSide.Core := by
  have hb := hc.base
  have hempty : q.waiting = .empty := by
    rcases hw with hw | ⟨hptr, hw⟩
    · exact hw
    · exact hw.trans (hb.writer.busy hptr)
  have hwritten : (s.putBytes bytes moved q).outSide.written = s.outSide.written ++ moved :=
    loggedBytes_appendLast
  have hgone : (s.putBytes bytes moved q).outSide.gone = s.outSide.gone := rfl
  have hoff : (s.putBytes bytes moved q).outSide.sentOff = s.outSide.sentOff := rfl
  obtain ⟨rest, hrest⟩ := hput.is_prefix
  have hcalls : s.otg.daintmsk = true → WritesOk (some bytes) s.session.writes := by
    intro hon
    rw [← hcall]
    exact hb.writer.writes hon
  have hfull : ∃ l, q.obqFull = s.obqueue.obqFull ++ l := by
    have h := hput.full
    cases notify with
    | true =>
      obtain ⟨b, hb⟩ := h
      exact ⟨_, hb⟩
    | false => exact ⟨[], h.trans (List.append_nil _).symm⟩
  refine ⟨⟨hput.ok, hput.bsize.trans hb.bsize, hput.bn.trans hb.bn, hb.epc, ?_, ?_,
    ⟨fun _ => hempty, fun _ => hempty, ?_, ?_, ?_, ?_,
      fun h => ThreadsQueue.noConfusion (hempty.symm.trans h)⟩,
    fun hon => hput.suspended.trans (hb.resumed hon)⟩, ?_⟩
  · rw [hgone, hwritten]
    exact hb.reached.trans (List.prefix_append _ _)
  · intro hon
    have hle : s.outSide.sentOff ≤ s.obqueue.pending.length := sentOff_le hb (hc.phase hon)
    rw [hgone, hwritten, hoff, show (s.putBytes bytes moved q).outSide.q = q from rfl, hput.pending,
      List.drop_append_of_le_length hle, ← List.append_assoc]
    exact congrArg (· ++ moved) (hb.exact hon)
  · intro r hr
    have hwriter : (if bytes.length ≤ moved.length then none
      else some (bytes.drop moved.length)) = some r := hr
    by_cases hend : bytes.length ≤ moved.length
    · simp [hend] at hwriter
    · rw [if_neg hend] at hwriter
      obtain rfl := Option.some.inj hwriter
      rw [List.length_drop]
      exact Nat.sub_pos_of_lt (Nat.lt_of_not_le hend)
  · intro hon
    have hold := hcalls hon
    show WritesOk (if bytes.length ≤ moved.length then none
      else some (bytes.drop moved.length)) _
    by_cases hend : bytes.length ≤ moved.length
    · have heq : moved = bytes := hput.is_prefix.eq_of_length_le hend
      rw [if_pos hend]
      exact writesOk_last (heq ▸ hold)
    · rw [if_neg hend, ← hrest, List.drop_left]
      exact writesOk_more (hrest ▸ hold)
  · intro _ _ h
    rw [show (s.putBytes bytes moved q).outSide.q.waiting = .empty from hempty] at h
    cases h
  · intro h
    rw [show (s.putBytes bytes moved q).outSide.q.waiting = .empty from hempty] at h
    cases h
  · intro hon
    refine phase_of_queue (hc.phase hon) rfl rfl rfl rfl rfl ?_
    intro hlt
    obtain ⟨l, hl⟩ := hfull
    obtain ⟨hlt', hsize⟩ := hb.queue.head_eq hput.ok hlt hl
    exact ⟨hlt', hput.brdptr, hsize⟩

/-- The thread goes to sleep, with no room to write. -/
theorem write_wait_spec (hi : s.outSide.Inv) {bytes : List UInt8} (hcall : s.writer = some bytes)
    (hptr : s.obqueue.ptr = none)
    (hwhy : s.obqueue.waiting = .waiting ∨ s.obqueue.bcounter = 0 ∧ s.obqueue.suspended = false) :
    (outSide { s with obqueue := { s.obqueue with waiting := .waiting } }).Inv := by
  have hb := hi.core.base
  refine ⟨⟨⟨⟨hb.queue.counter, hb.queue.ring, hb.queue.ptr⟩, hb.bsize, hb.bn, hb.epc, hb.reached,
    hb.exact, ⟨?_, ?_, hb.writer.left, hb.writer.writes, ?_, ?_,
      fun _ => hwhy.elim hb.writer.asleep id⟩, hb.resumed⟩, ?_⟩, hi.sends⟩
  · intro hidle
    have hnone : s.writer = none := hidle
    rw [hcall] at hnone
    cases hnone
  · intro hbusy
    exact absurd hptr hbusy
  · intro _ _ h
    cases h
  · intro h
    cases h
  · intro hon
    exact phase_of_queue (hi.core.phase hon) rfl rfl rfl rfl rfl fun hlt => ⟨hlt, rfl, rfl⟩

/-- The thread gives the call up, which with the endpoint on only one from before does. -/
theorem write_reset_spec (hi : s.outSide.Inv) (hwhy : s.obqueue.GivenUp) :
    (outSide { s with
      obqueue := { s.obqueue with waiting := .empty }
      writer := none }).Inv := by
  have hb := hi.core.base
  refine ⟨⟨⟨⟨hb.queue.counter, hb.queue.ring, hb.queue.ptr⟩, hb.bsize, hb.bn, hb.epc, hb.reached,
    hb.exact, ⟨fun _ => rfl, fun _ => rfl, fun _ h => by simp [outSide] at h, ?_, ?_, ?_,
      fun h => by cases h⟩, hb.resumed⟩, ?_⟩, hi.sends⟩
  · intro hon
    have hnil : s.outSide.writes = [] := by
      by_contra hne
      cases hwhy with
      | @told msg h hmsg =>
        cases msg with
        | MSG_OK => exact hmsg rfl
        | MSG_TIMEOUT => exact hb.writer.no_timeout h
        | MSG_RESET => exact hb.writer.awake hon hne h
      | suspended h => exact Bool.noConfusion (h.symm.trans (hb.resumed hon))
    show WritesOk none s.outSide.writes
    rw [hnil]
    exact .between (by simp)
  · intro _ _ h
    cases h
  · intro h
    cases h
  · intro hon
    exact phase_of_queue (hi.core.phase hon) rfl rfl rfl rfl rfl fun hlt => ⟨hlt, rfl, rfl⟩

/-- A pass of `obqWriteTimeout`, whatever it does. -/
theorem writePass_spec (hl : s.link.Ok) (hi : s.outSide.Inv) {bytes : List UInt8}
    (hcall : s.writer = some bytes) :
    ∃ s', s.writePass bytes = some s' ∧ s'.link = s.link ∧ s'.inSide = s.inSide ∧
      s'.outSide.Inv := by
  have hb := hi.core.base
  obtain ⟨r, hr, hpassed⟩ := hb.queue.writePass (hb.writer.left bytes hcall)
  rw [writePass, show s.obqueue.obqWritePass bytes = some r from hr]
  cases hpassed with
  | @moved moved notify q hput hw =>
    have hcore := core_putBytes hi.core hcall hput hw
    cases notify with
    | true =>
      obtain ⟨b, hfull⟩ := hput.full
      refine obnotify_spec (s := s.putBytes bytes moved q) hl hcore ?_
      refine Nat.lt_of_le_of_ne hput.ok.counter (hput.ok.obqFull_eq_nil_iff.not.mp ?_)
      rw [hfull]
      simp
    | false =>
      refine ⟨s.putBytes bytes moved q, rfl, rfl, rfl, hcore, ?_⟩
      intro hon
      have hfull : q.obqFull = s.obqueue.obqFull := hput.full
      rcases hi.sends hon with ht | heq
      · exact .inl ht
      · refine .inr (hput.ok.obqFull_eq_nil_iff.mp ?_)
        rw [hfull]
        exact hb.queue.obqFull_eq_nil_iff.mpr heq
  | reset hptr hwhy => exact ⟨_, rfl, rfl, rfl, write_reset_spec hi hwhy⟩
  | wait hptr tq htq hwhy =>
    subst htq
    exact ⟨_, rfl, rfl, rfl, write_wait_spec hi hcall hptr hwhy⟩

/-- A call of `obqWriteTimeout` begins. -/
theorem write_spec (hi : s.outSide.Inv) (hidle : s.writer = none) {bytes : List UInt8}
    (hn : 0 < bytes.length) :
    (outSide { s with
      writer := some bytes
      session := { s.session with writes := s.session.writes ++ [(bytes, [])] } }).Inv := by
  have hb := hi.core.base
  have hwait : s.obqueue.waiting = .empty := hb.writer.idle hidle
  have hwritten : loggedBytes s.session.carriedOut (s.session.writes ++ [(bytes, [])]) =
      s.outSide.written := by
    simp [loggedBytes, OutSide.written, outSide]
  refine ⟨⟨⟨hb.queue, hb.bsize, hb.bn, hb.epc, ?_, ?_, ⟨fun _ => hwait, fun _ => hwait, ?_, ?_, ?_, ?_,
      fun h => ThreadsQueue.noConfusion (hwait.symm.trans h)⟩, hb.resumed⟩, ?_⟩, hi.sends⟩
  · have hreached := hb.reached
    rw [← hwritten] at hreached
    exact hreached
  · intro hon
    have hexact := hb.exact hon
    rw [← hwritten] at hexact
    exact hexact
  · intro rest hrest
    obtain rfl := Option.some.inj hrest
    exact hn
  · intro hon
    have hold : WritesOk s.writer s.session.writes := hb.writer.writes hon
    rw [hidle] at hold
    cases hold with
    | between hall =>
      have hwithin : WritesOk (some bytes) (s.session.writes ++ [([] ++ bytes, [])]) := .within hall
      exact hwithin
  · intro _ _ h
    exact ThreadsQueue.noConfusion (hwait.symm.trans h)
  · intro h
    exact ThreadsQueue.noConfusion (hwait.symm.trans h)
  · intro hon
    exact phase_of_queue (hi.core.phase hon) rfl rfl rfl rfl rfl fun hlt => ⟨hlt, rfl, rfl⟩

end SerialUSB

end Stmdsp
