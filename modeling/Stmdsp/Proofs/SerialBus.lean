import Stmdsp.Proofs.SerialIn
import Stmdsp.Proofs.SerialOut

/-! Bus events: resets, suspensions and configurations end the transfers of both sides
of the serial driver, and only a new configuration starts others. -/

namespace Stmdsp

variable {q q' : IoBuffersQueue}

/-- A queue as it was, or suspended. -/
inductive Quieted (q : IoBuffersQueue) : IoBuffersQueue → Prop
  | same : Quieted q q
  | suspended : Quieted q q.bqSuspendI

theorem Quieted.stays (h : Quieted q q') (hw : q.waiting = .empty) : q'.waiting = .empty := by
  cases h with
  | same => exact hw
  | suspended =>
    show q.waiting.dequeue .MSG_RESET = _
    rw [hw, ThreadsQueue.dequeue_empty]

theorem Quieted.no_timeout (h : Quieted q q') (hw : q.waiting ≠ .resumed .MSG_TIMEOUT) :
    q'.waiting ≠ .resumed .MSG_TIMEOUT := by
  cases h with
  | same => exact hw
  | suspended => exact ThreadsQueue.dequeue_ne hw (by decide)

/-- A thread asleep in a queue that is not suspended is woken with it. -/
theorem Quieted.asleep (h : Quieted q q')
    (hw : q.waiting = .waiting → q.bcounter = 0 ∧ q.suspended = false) :
    q'.waiting = .waiting → q'.bcounter = 0 ∧ q'.suspended = false := by
  cases h with
  | same => exact hw
  | suspended => exact fun hwait => absurd hwait ThreadsQueue.dequeue_ne_waiting

namespace InSide

variable {i : InSide}

/-- The endpoint goes off, and its transfer ends. -/
theorem Inv.off (hi : i.Inv) (hq : Quieted i.q q') (epc : Bool) :
    Inv { i with
      on := false
      epc := epc
      q := q'
      receiving := false
      oe := { i.oe with epena := false, xfrc := false } } := by
  have hc := hi.core
  have hno : ∀ {p : Prop}, false = true → p := fun h => Bool.noConfusion h
  have hold : q'.InOk ∧ q'.bsize = i.q.bsize ∧ q'.bn = i.q.bn ∧ q'.unread = i.q.unread ∧
      q'.ptr = i.q.ptr := by
    cases hq with
    | same => exact ⟨hc.queue, rfl, rfl, rfl, rfl⟩
    | suspended => exact ⟨⟨hc.queue.ring, hc.queue.ptr⟩, rfl, rfl, rfl, rfl⟩
  obtain ⟨hok, hbsize, hbn, hunread, hptr⟩ := hold
  have hasleep := hq.asleep hc.reader.asleep
  refine ⟨⟨hok, hbsize.trans hc.bsize, hbn.trans hc.bn, hno, hno, hno, hno, hno, hno, hno, hno, ?_,
    hno, ⟨fun h => hq.stays (hc.reader.idle h), fun h => hq.stays (hc.reader.busy (hptr ▸ h)),
      hc.reader.left, hno, hno, hq.no_timeout hc.reader.no_timeout, hasleep⟩, hno⟩, hno⟩
  have hreached := hc.reached
  rw [← hunread] at hreached
  exact hreached

end InSide

namespace OutSide

variable {o : OutSide}

theorem Inv.off (hi : o.Inv) (hq : Quieted o.q q') (epc empmsk : Bool) :
    Inv { o with
      on := false
      epc := epc
      q := q'
      transmitting := false
      ie := { o.ie with epena := false, xfrc := false }
      empmsk := empmsk } := by
  have hb := hi.core.base
  have hno : ∀ {p : Prop}, false = true → p := fun h => Bool.noConfusion h
  have hold : q'.OutOk ∧ q'.bsize = o.q.bsize ∧ q'.bn = o.q.bn ∧ q'.ptr = o.q.ptr := by
    cases hq with
    | same => exact ⟨hb.queue, rfl, rfl, rfl⟩
    | suspended => exact ⟨⟨hb.queue.counter, hb.queue.ring, hb.queue.ptr⟩, rfl, rfl, rfl⟩
  obtain ⟨hok, hbsize, hbn, hptr⟩ := hold
  have hasleep := hq.asleep hb.writer.asleep
  exact ⟨⟨⟨hok, hbsize.trans hb.bsize, hbn.trans hb.bn,
    fun h => h.elim hno fun h => h.elim hno hno, hb.reached, hno,
    ⟨fun h => hq.stays (hb.writer.idle h), fun h => hq.stays (hb.writer.busy (hptr ▸ h)),
      hb.writer.left, hno, hno, hq.no_timeout hb.writer.no_timeout, hasleep⟩, hno⟩, hno⟩, hno⟩

end OutSide

namespace SerialUSB

variable {s : SerialUSB}

/-- The hook leaves both queues suspended or as they are. -/
theorem sduSuspendHookI_quieted (s : SerialUSB) :
    ∃ qi qo, Quieted s.ibqueue qi ∧ Quieted s.obqueue qo ∧
      s.sduSuspendHookI = { s with ibqueue := qi, obqueue := qo } := by
  rw [sduSuspendHookI]
  by_cases h : (s.ibqueue.suspended && s.obqueue.suspended) = true
  · exact ⟨_, _, .same, .same, if_pos h⟩
  · exact ⟨_, _, .suspended, .suspended, if_neg h⟩

theorem usb_reset_spec (hi : s.Inv) : s._usb_reset.Inv := by
  obtain ⟨qi, qo, hqi, hqo, heq⟩ := sduSuspendHookI_quieted (usb_lld_reset { s with usbp := { s.usbp with
    state := .USB_READY
    configuration := 0
    transmitting := false
    receiving := false
    epc := false } })
  rw [_usb_reset, usb_event_disconnected, heq]
  exact ⟨⟨hi.link.sdu, by simp [link, usb_lld_reset, otg_disable_ep], hi.link.saved,
    fun h => Bool.noConfusion h⟩, hi.rx.off hqi false, hi.tx.off hqo false false⟩

/-- The driver with the endpoint off, transfers ended and another state. -/
def disconnected (s : SerialUSB) (state saved : USBState) (configuration : UInt8) (epc : Bool)
    (qi qo : IoBuffersQueue) : SerialUSB :=
  { s.otg_disable_ep with
    ibqueue := qi
    obqueue := qo
    usbp := { s.usbp with
      state := state
      savedState := saved
      configuration := configuration
      transmitting := false
      receiving := false
      epc := epc } }

theorem disconnected_inv (hi : s.Inv) {state saved : USBState} {configuration : UInt8} {epc : Bool}
    {qi qo : IoBuffersQueue} (hqi : Quieted s.ibqueue qi) (hqo : Quieted s.obqueue qo)
    (hsaved : saved ≠ .USB_SUSPENDED)
    (hepc : epc = true ↔ state = .USB_ACTIVE ∨ state = .USB_SUSPENDED ∧ saved = .USB_ACTIVE) :
    (s.disconnected state saved configuration epc qi qo).Inv :=
  ⟨⟨hi.link.sdu, hepc, hsaved, fun h => Bool.noConfusion h⟩, hi.rx.off hqi epc,
    hi.tx.off hqo epc s.otg.diepempmsk⟩

theorem usb_suspend_spec (hi : s.Inv) (hs : s.usbp.state ≠ .USB_SUSPENDED) : s._usb_suspend.Inv := by
  obtain ⟨qi, qo, hqi, hqo, heq⟩ := sduSuspendHookI_quieted { s.otg_disable_ep with
    usbp := { s.usbp with
      savedState := s.usbp.state
      state := .USB_SUSPENDED } }
  have hs' : s._usb_suspend =
      s.disconnected .USB_SUSPENDED s.usbp.state s.usbp.configuration s.usbp.epc qi qo :=
    congrArg (fun s : SerialUSB =>
      { s with usbp := { s.usbp with transmitting := false, receiving := false } }) heq
  rw [hs']
  refine disconnected_inv hi hqi hqo hs ?_
  rw [show s.usbp.epc = s.link.epc from rfl, hi.link.epc]
  constructor
  · rintro (h | h)
    · exact .inr ⟨rfl, h⟩
    · exact absurd h.1 hs
  · rintro (h | h)
    · cases h
    · exact .inl h.2

theorem usb_wakeup_spec (hi : s.Inv) (hs : s.usbp.state = .USB_SUSPENDED) : s._usb_wakeup.Inv := by
  have hoff : s.otg.daintmsk ≠ true := by
    intro hon
    have hact : s.usbp.state = .USB_ACTIVE := hi.link.on hon
    rw [hs] at hact
    cases hact
  have hrc := hi.rx.core
  have htb := hi.tx.core.base
  refine ⟨⟨hi.link.sdu, ?_, hi.link.saved, fun h => absurd h hoff⟩, ⟨?_, hi.rx.armed⟩,
    ⟨⟨?_, fun h => absurd h hoff⟩, hi.tx.sends⟩⟩
  · show s.usbp.epc = true ↔ _
    rw [show s.usbp.epc = s.link.epc from rfl, hi.link.epc,
      show s.link.state = .USB_SUSPENDED from hs]
    constructor
    · rintro (h | h)
      · cases h
      · exact .inl h.2
    · rintro (h | h)
      · exact .inr ⟨rfl, h⟩
      · exact absurd h.1 hi.link.saved
  · exact ⟨⟨hrc.queue.ring, hrc.queue.ptr⟩, hrc.bsize, hrc.bn, hrc.epc, hrc.free, hrc.rxbuf,
      hrc.rxsize, hrc.rxcnt, hrc.epena, hrc.xfrc, hrc.served, hrc.reached, hrc.exact,
      ⟨hrc.reader.idle, hrc.reader.busy, hrc.reader.left, hrc.reader.reads, hrc.reader.awake,
        hrc.reader.no_timeout, fun h => ⟨(hrc.reader.asleep h).1, rfl⟩⟩, fun _ => rfl⟩
  · exact ⟨⟨htb.queue.counter, htb.queue.ring, htb.queue.ptr⟩, htb.bsize, htb.bn, htb.epc,
      htb.reached, htb.exact, ⟨htb.writer.idle, htb.writer.busy, htb.writer.left, htb.writer.writes,
        htb.writer.awake, htb.writer.no_timeout,
        fun h => ⟨(htb.writer.asleep h).1, rfl⟩⟩, fun _ => rfl⟩

theorem setAddress_spec (hi : s.Inv) (hs : s.usbp.state = .USB_READY) :
    ({ s with usbp := { s.usbp with state := .USB_SELECTED } } : SerialUSB).Inv := by
  have hoff : s.otg.daintmsk ≠ true := by
    intro hon
    have hact : s.usbp.state = .USB_ACTIVE := hi.link.on hon
    rw [hs] at hact
    cases hact
  refine ⟨⟨hi.link.sdu, ?_, hi.link.saved, fun h => absurd h hoff⟩, hi.rx, hi.tx⟩
  show s.usbp.epc = true ↔ _
  rw [show s.usbp.epc = s.link.epc from rfl, hi.link.epc, show s.link.state = .USB_READY from hs]
  simp [link]

/-! ### A new session -/

/-- The driver right before `sduConfigureHookI` starts to receive. -/
def configured (s : SerialUSB) (value : UInt8) : SerialUSB :=
  { s with
    ibqueue := s.ibqueue.ibqResetI.bqResumeX
    obqueue := s.obqueue.obqResetI.bqResumeX
    usbp := { s.usbp with
      state := .USB_ACTIVE
      configuration := value
      epc := true
      inState := ⟨0, 0, 0, 0⟩
      outState := ⟨0, 0, 0, 0⟩ }
    otg := { s.otg with
      daintmsk := true
      ie := { s.otg.ie with epena := false, pktcnt := 0, xfrsiz := 0, fifo := [] }
      oe := { s.otg.oe with epena := false, pktcnt := 0 } }
    session := .start }

theorem configured_rx (hi : s.Inv) (hepc : s.usbp.epc = false) (value : UInt8) :
    (s.configured value).inSide.Core := by
  have hc := hi.rx.core
  have hr : s.usbp.receiving ≠ true := fun h => Bool.noConfusion ((hc.epc h).symm.trans hepc)
  have hnil : (s.configured value).inSide.partly = [] := if_neg hr
  have hunread : (s.configured value).inSide.q.unread = [] := by
    show (s.ibqueue.ibqResetI.bqResumeX).unread = []
    rw [IoBuffersQueue.unread_of_none rfl]
    rfl
  have hquiet : s.ibqueue.waiting = .empty →
      (s.configured value).inSide.q.waiting = .empty := by
    intro h
    show s.ibqueue.waiting.dequeue .MSG_RESET = _
    rw [h, ThreadsQueue.dequeue_empty]
  refine ⟨⟨hc.queue.reset.ring, hc.queue.reset.ptr⟩, hc.bsize, hc.bn, fun _ => rfl,
    fun h => absurd h hr, fun h => absurd h hr, fun h => absurd h hr, fun h => absurd h hr,
    fun h => Bool.noConfusion h, fun h => absurd (hc.xfrc h).1 hr, fun _ h => absurd h hr, ?_, ?_,
    ⟨fun h => hquiet (hc.reader.idle h), fun h => absurd rfl h, hc.reader.left, ?_,
      fun _ h => absurd rfl h, ThreadsQueue.dequeue_ne hc.reader.no_timeout (by decide),
      fun h => absurd h ThreadsQueue.dequeue_ne_waiting⟩, fun _ => rfl⟩
  · rw [hunread]
    exact List.prefix_rfl
  · intro _
    rw [hunread, hnil]
    rfl
  · intro _
    show InSide.ReadsOk s.reader []
    cases s.reader with
    | none => exact .between (by simp)
    | some call => exact .carried call

theorem configured_tx (hi : s.Inv) (hepc : s.usbp.epc = false) (value : UInt8) :
    (s.configured value).outSide.Inv := by
  have hb := hi.tx.core.base
  have hoff : ∀ {b : Bool}, (b = true → s.usbp.epc = true) → b = false := by
    intro b h
    cases b with
    | false => rfl
    | true => exact Bool.noConfusion ((h rfl).symm.trans hepc)
  have ht : s.usbp.transmitting = false := hoff fun h => hb.epc (.inl h)
  have hx : s.otg.ie.xfrc = false := hoff fun h => hb.epc (.inr (.inr h))
  have hpending : (s.configured value).outSide.q.pending = [] :=
    IoBuffersQueue.OutOk.pending_reset (q := s.obqueue)
  have hquiet : s.obqueue.waiting = .empty →
      (s.configured value).outSide.q.waiting = .empty := by
    intro h
    show s.obqueue.waiting.dequeue .MSG_RESET = _
    rw [h, ThreadsQueue.dequeue_empty]
  refine ⟨⟨⟨⟨hb.queue.reset.counter, hb.queue.reset.ring, hb.queue.reset.ptr⟩, hb.bsize, hb.bn,
    fun _ => rfl, List.prefix_rfl, ?_, ⟨fun h => hquiet (hb.writer.idle h), fun h => absurd rfl h,
      hb.writer.left, ?_, fun _ h => absurd rfl h,
      ThreadsQueue.dequeue_ne hb.writer.no_timeout (by decide),
      fun h => absurd h ThreadsQueue.dequeue_ne_waiting⟩, fun _ => rfl⟩, ?_⟩, fun _ => .inr rfl⟩
  · intro _
    rw [hpending, List.drop_nil]
    rfl
  · intro _
    show OutSide.WritesOk s.writer []
    cases s.writer with
    | none => exact .between (by simp)
    | some rest => exact .carried rest
  · intro _
    refine .idle ⟨ht, rfl, rfl, hx, Nat.le_refl 0, ?_⟩
    intro p hp
    cases hp

theorem usb_event_configured_spec (hi : s.Inv) (hepc : s.usbp.epc = false) (value : UInt8) :
    ∃ s', usb_event_configured { s with usbp := { s.usbp with
        configuration := value
        state := .USB_ACTIVE } } = some s' ∧ s'.Inv := by
  have hl : (s.configured value).link.Ok :=
    ⟨hi.link.sdu, ⟨fun _ => .inl rfl, fun _ => rfl⟩, hi.link.saved, fun _ => rfl⟩
  obtain ⟨s', hs', hlink, hout, hinv⟩ := sdu_start_receive_spec hl (configured_rx hi hepc value)
  refine ⟨s', ?_, ⟨hlink ▸ hl, hinv, hout ▸ configured_tx hi hepc value⟩⟩
  simp only [usb_event_configured, usbInitEndpointI, hepc, and_self, if_true]
  exact hs'

theorem setConfiguration_spec (hi : s.Inv) (hs : s.usbp.state ≠ .USB_SUSPENDED) (value : UInt8) :
    ∃ s', s.setConfiguration value = some s' ∧ s'.Inv := by
  have hcase : ∃ s₁ : SerialUSB, s₁.Inv ∧ s₁.usbp.epc = false ∧ s.setConfiguration value =
      if value ≠ 0 then usb_event_configured { s₁ with usbp := { s₁.usbp with
        configuration := value
        state := .USB_ACTIVE } } else some s₁ := by
    by_cases hact : s.usbp.state = .USB_ACTIVE
    · obtain ⟨qi, qo, hqi, hqo, heq⟩ := sduSuspendHookI_quieted { s.otg_disable_ep with
        usbp := { s.usbp with
          transmitting := false
          receiving := false
          epc := false
          configuration := 0
          state := .USB_SELECTED } }
      refine ⟨s.disconnected .USB_SELECTED s.usbp.savedState 0 false qi qo,
        disconnected_inv hi hqi hqo hi.link.saved (by simp), rfl, ?_⟩
      simp only [setConfiguration, if_pos hact, usbDisableEndpointsI]
      exact congrArg (fun s₁ : SerialUSB => if value ≠ 0 then usb_event_configured { s₁ with
        usbp := { s₁.usbp with
          configuration := value
          state := .USB_ACTIVE } } else some s₁) heq
    · refine ⟨s, hi, ?_, ?_⟩
      · rw [← Bool.not_eq_true, show s.usbp.epc = s.link.epc from rfl, hi.link.epc]
        rintro (h | h)
        · exact hact h
        · exact hs h.1
      · simp only [setConfiguration, if_neg hact]
        rfl
  obtain ⟨s₁, hi₁, hepc, heq⟩ := hcase
  rw [heq]
  by_cases hv : value ≠ 0
  · rw [if_pos hv]
    exact usb_event_configured_spec hi₁ hepc value
  · rw [if_neg hv]
    exact ⟨s₁, rfl, hi₁⟩

end SerialUSB

end Stmdsp
