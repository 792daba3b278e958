import Stmdsp.Proofs.SerialSides

/-! The receiving side of the serial driver: what the host has sent is what the thread
has read, what the input queue holds, and what the transfer in progress has brought, in
that order. -/

namespace Stmdsp

namespace SerialUSB

open InSide

variable {s : SerialUSB}

/-- A new transfer into the buffer at `bwrptr`. -/
theorem usbStartReceiveI_spec (hc : s.inSide.Core) (hepc : s.usbp.epc = true)
    (hr : s.usbp.receiving = false) (hfree : s.ibqueue.bcounter < s.ibqueue.bn) :
    ∃ s', s.usbStartReceiveI (s.ibqueue.bwrptr + SIZEOF_SIZE_T) SERIAL_USB_BUFFERS_SIZE = some s' ∧
      s'.link = s.link ∧ s'.outSide = s.outSide ∧ s'.inSide.Inv := by
  have hpos : 0 < (SERIAL_USB_BUFFERS_SIZE + EP1_MAXSIZE - 1) / EP1_MAXSIZE := by decide
  have hsum : 0 + EP1_MAXSIZE * ((SERIAL_USB_BUFFERS_SIZE + EP1_MAXSIZE - 1) / EP1_MAXSIZE) =
      SERIAL_USB_BUFFERS_SIZE := by decide
  refine ⟨_, if_pos ⟨hr, hepc⟩, rfl, rfl, ⟨hc.queue, hc.bsize, hc.bn, fun _ => hepc,
    fun _ => hfree, fun _ => rfl, fun _ => rfl, fun _ => Nat.zero_le _, ?_, ?_, ?_, hc.reached, ?_,
    ⟨hc.reader.idle, hc.reader.busy, hc.reader.left, hc.reader.reads, hc.reader.awake,
      hc.reader.no_timeout, hc.reader.asleep⟩, hc.resumed⟩,
    fun _ => .inl rfl⟩
  · intro _
    exact ⟨rfl, hpos, hsum⟩
  · intro hx
    have hrecv : s.usbp.receiving = true := (hc.xfrc hx).1
    rw [hr] at hrecv
    cases hrecv
  · intro _ _
    exact .inl rfl
  · intro hon
    have hexact := hc.exact hon
    have hnil : s.inSide.partly = [] := if_neg (by rw [show s.inSide.receiving = false from hr]; simp)
    rw [hnil] at hexact
    exact hexact

/-- `sdu_start_receive` never fails, and leaves a transfer in progress unless the queue is
full. -/
theorem sdu_start_receive_spec (hl : s.link.Ok) (hc : s.inSide.Core) :
    ∃ s', s.sdu_start_receive = some s' ∧ s'.link = s.link ∧ s'.outSide = s.outSide ∧
      s'.inSide.Inv := by
  rw [sdu_start_receive]
  by_cases hact : s.active = false
  · rw [if_pos hact]
    refine ⟨s, rfl, rfl, rfl, hc, ?_⟩
    intro hon
    rw [active_of_on hl hon] at hact
    cases hact
  rw [if_neg hact]
  by_cases hr : s.usbp.receiving = true
  · rw [if_pos hr]
    exact ⟨s, rfl, rfl, rfl, hc, fun _ => .inl hr⟩
  rw [if_neg hr, IoBuffersQueue.ibqGetEmptyBufferI]
  by_cases hfull : s.ibqueue.ibqIsFullI = true
  · rw [if_pos hfull]
    exact ⟨s, rfl, rfl, rfl, hc, fun _ => .inr (hc.queue.full_iff.mp hfull)⟩
  · rw [if_neg hfull]
    rw [Bool.not_eq_false] at hact
    rw [Bool.not_eq_true] at hr hfull
    exact usbStartReceiveI_spec hc (epc_of_active hl hact) hr (hc.queue.not_full_iff.mp hfull)

/-! ### Packets -/

section Packet

variable {packet : List UInt8}

/-- There is room for a packet of full size. -/
theorem packet_fits (hc : s.inSide.Core) (hen : s.otg.oe.epena = true)
    (hlen : packet.length ≤ EP1_MAXSIZE) :
    s.usbp.outState.rxcnt + packet.length ≤ SERIAL_USB_BUFFERS_SIZE := by
  obtain ⟨-, hpkt, hsum⟩ := hc.epena hen
  have hmul := Nat.mul_le_mul_left EP1_MAXSIZE hpkt
  rw [← hsum]
  show s.usbp.outState.rxcnt + packet.length ≤ s.usbp.outState.rxcnt + _
  omega

/-- The packet is copied whole, behind what the transfer has brought. -/
theorem acceptPacket_mem (hc : s.inSide.Core) (hen : s.otg.oe.epena = true)
    (hlen : packet.length ≤ EP1_MAXSIZE) :
    (s.acceptPacket packet).ibqueue.mem =
      splice s.ibqueue.mem (s.ibqueue.bwrptr + SIZEOF_SIZE_T + s.usbp.outState.rxcnt) packet := by
  have hr := (hc.epena hen).1
  have hfits := packet_fits hc hen hlen
  have hbuf : s.usbp.outState.rxbuf = _ := hc.rxbuf hr
  have hsize : s.usbp.outState.rxsize = _ := hc.rxsize hr
  show splice s.ibqueue.mem s.usbp.outState.rxbuf
    (packet.take (s.usbp.outState.rxsize - s.usbp.outState.rxcnt)) = _
  rw [List.take_of_length_le (by omega), hbuf]
  rfl

theorem acceptPacket_outside (hc : s.inSide.Core) (hen : s.otg.oe.epena = true)
    (hlen : packet.length ≤ EP1_MAXSIZE) (i : ℕ)
    (hi : i < s.ibqueue.bwrptr + SIZEOF_SIZE_T ∨ s.ibqueue.bwrptr + s.ibqueue.bsize ≤ i) :
    (s.acceptPacket packet).ibqueue.mem i = s.ibqueue.mem i := by
  have hfits := packet_fits hc hen hlen
  have hbsize : s.ibqueue.bsize = _ := hc.bsize
  rw [acceptPacket_mem hc hen hlen]
  rcases hi with hi | hi
  · exact splice_of_lt (by omega)
  · exact splice_of_ge (by omega)

theorem acceptPacket_unread (hc : s.inSide.Core) (hen : s.otg.oe.epena = true)
    (hlen : packet.length ≤ EP1_MAXSIZE) :
    (s.acceptPacket packet).inSide.q.unread = s.inSide.q.unread :=
  hc.queue.unread_write (hc.free (hc.epena hen).1) (acceptPacket_outside hc hen hlen)

theorem acceptPacket_partly (hc : s.inSide.Core) (hen : s.otg.oe.epena = true)
    (hlen : packet.length ≤ EP1_MAXSIZE) :
    (s.acceptPacket packet).inSide.partly = s.inSide.partly ++ packet := by
  have hr := (hc.epena hen).1
  have hr' : (s.acceptPacket packet).inSide.receiving = true := hr
  rw [InSide.partly, InSide.partly, if_pos hr, if_pos hr']
  show slice (s.acceptPacket packet).ibqueue.mem (s.ibqueue.bwrptr + SIZEOF_SIZE_T)
    (s.usbp.outState.rxcnt + packet.length) = _
  rw [acceptPacket_mem hc hen hlen, slice_splice_append]
  rfl

/-- The packet ends the transfer, as a short one or as the last of those expected. -/
def lastPacket (s : SerialUSB) (packet : List UInt8) : Bool :=
  decide (packet.length < EP1_MAXSIZE) || s.otg.oe.pktcnt - 1 == 0

theorem acceptPacket_epena (hen : s.otg.oe.epena = true) :
    (s.acceptPacket packet).otg.oe.epena = !s.lastPacket packet := by
  show (s.otg.oe.epena && _) = _
  rw [hen, Bool.true_and]
  rfl

theorem acceptPacket_xfrc (hc : s.inSide.Core) (hen : s.otg.oe.epena = true) :
    (s.acceptPacket packet).otg.oe.xfrc = s.lastPacket packet := by
  have hx : s.otg.oe.xfrc = false := by
    by_contra hne
    rw [Bool.not_eq_false] at hne
    have hoff : s.otg.oe.epena = false := (hc.xfrc hne).2
    rw [hen] at hoff
    cases hoff
  show (s.otg.oe.xfrc || _) = _
  rw [hx, Bool.false_or]
  rfl

theorem acceptPacket_spec (hi : s.inSide.Inv) (hen : s.otg.oe.epena = true)
    (hlen : packet.length ≤ EP1_MAXSIZE) :
    (s.acceptPacket packet).link = s.link ∧ (s.acceptPacket packet).outSide = s.outSide ∧
      (s.acceptPacket packet).inSide.Inv := by
  have hc := hi.core
  obtain ⟨hr, hpkt, hsum⟩ := hc.epena hen
  have hunread := acceptPacket_unread hc hen hlen
  have hsent : (s.acceptPacket packet).inSide.sent.flatten = s.inSide.sent.flatten ++ packet := by
    show (s.session.sent ++ [packet]).flatten = _
    rw [List.flatten_append, List.flatten_singleton]
    rfl
  have hread : (s.acceptPacket packet).inSide.readOut = s.inSide.readOut := rfl
  refine ⟨rfl, rfl, ⟨hc.queue.write (hc.free hr) (acceptPacket_outside hc hen hlen), hc.bsize, hc.bn,
    hc.epc, hc.free, ?_, hc.rxsize, fun _ => packet_fits hc hen hlen, ?_, ?_, ?_, ?_, ?_,
    ⟨hc.reader.idle, hc.reader.busy, hc.reader.left, hc.reader.reads, hc.reader.awake,
      hc.reader.no_timeout, hc.reader.asleep⟩, hc.resumed⟩, hi.armed⟩
  · intro _
    have hbuf : s.usbp.outState.rxbuf = _ := hc.rxbuf hr
    show s.usbp.outState.rxbuf + packet.length = _ + (s.usbp.outState.rxcnt + packet.length)
    rw [hbuf, Nat.add_assoc]
    rfl
  · intro hen'
    -- Not the last packet of the transfer: a full one, with others to come.
    have hlast : (!s.lastPacket packet) = true := (acceptPacket_epena hen).symm.trans hen'
    rw [Bool.not_eq_true', lastPacket, Bool.or_eq_false_iff, decide_eq_false_iff_not,
      beq_eq_false_iff_ne] at hlast
    refine ⟨hr, Nat.pos_of_ne_zero hlast.2, ?_⟩
    have hmul := Nat.mul_le_mul_left EP1_MAXSIZE hpkt
    rw [← hsum]
    show s.usbp.outState.rxcnt + packet.length + EP1_MAXSIZE * (s.otg.oe.pktcnt - 1) =
      s.usbp.outState.rxcnt + EP1_MAXSIZE * s.otg.oe.pktcnt
    rw [Nat.mul_sub_one]
    have hmul' : EP1_MAXSIZE * 1 ≤ EP1_MAXSIZE * s.otg.oe.pktcnt := hmul
    omega
  · intro hx
    have hlast : s.lastPacket packet = true := (acceptPacket_xfrc hc hen).symm.trans hx
    refine ⟨hr, (acceptPacket_epena hen).trans ?_⟩
    rw [hlast]
    rfl
  · intro _ _
    rw [show (s.acceptPacket packet).inSide.oe = (s.acceptPacket packet).otg.oe from rfl,
      acceptPacket_epena hen, acceptPacket_xfrc hc hen]
    cases s.lastPacket packet with
    | true => exact .inr rfl
    | false => exact .inl rfl
  · rw [hread, hunread, hsent]
    exact hc.reached.trans (List.prefix_append _ _)
  · intro hon
    rw [hread, hunread, hsent, acceptPacket_partly hc hen hlen, ← List.append_assoc]
    exact congrArg (· ++ packet) (hc.exact hon)

end Packet

/-! ### Completed transfers -/

/-- The endpoint's transfer ended, with the queue as it is then. -/
def doneReceiving (s : SerialUSB) (q : IoBuffersQueue) : SerialUSB :=
  { s with
    ibqueue := q
    usbp := { s.usbp with receiving := false }
    otg := { s.otg with oe := { s.otg.oe with xfrc := false } } }

/-- With the transfer's bytes posted, or none to post, nothing is lost. -/
theorem core_doneReceiving (hc : s.inSide.Core) (hon : s.otg.daintmsk = true)
    (hx : s.otg.oe.xfrc = true) {q : IoBuffersQueue} (hq : q.InOk)
    (hunread : q.unread = s.ibqueue.unread ++
      slice s.ibqueue.mem (s.ibqueue.bwrptr + SIZEOF_SIZE_T) s.usbp.outState.rxcnt)
    (hptr : q.ptr = s.ibqueue.ptr)
    (hw : q.waiting = s.ibqueue.waiting ∧ q.bcounter = s.ibqueue.bcounter ∨
      q.waiting = s.ibqueue.waiting.dequeue .MSG_OK)
    (hbsize : q.bsize = s.ibqueue.bsize) (hbn : q.bn = s.ibqueue.bn)
    (hsusp : q.suspended = s.ibqueue.suspended) : (s.doneReceiving q).inSide.Core := by
  obtain ⟨hr, hen⟩ := hc.xfrc hx
  have hpartly : s.inSide.partly =
      slice s.ibqueue.mem (s.ibqueue.bwrptr + SIZEOF_SIZE_T) s.usbp.outState.rxcnt := if_pos hr
  have hall : s.inSide.readOut ++ q.unread = s.inSide.sent.flatten := by
    rw [hunread, ← List.append_assoc, ← hpartly]
    exact hc.exact hon
  have hno : ∀ {p : Prop}, false = true → p := fun h => Bool.noConfusion h
  have hstay : s.ibqueue.waiting = .empty → q.waiting = .empty := by
    intro hold
    rcases hw with ⟨hw, -⟩ | hw
    · exact hw.trans hold
    · rw [hw, hold, ThreadsQueue.dequeue_empty]
  have hne : ∀ msg, msg ≠ .MSG_OK → s.ibqueue.waiting ≠ .resumed msg → q.waiting ≠ .resumed msg := by
    intro msg hmsg hold
    rcases hw with ⟨hw, -⟩ | hw
    · rwa [hw]
    · rw [hw]
      exact ThreadsQueue.dequeue_ne hold hmsg.symm
  refine ⟨hq, hbsize.trans hc.bsize, hbn.trans hc.bn, hno, hno, hno, hno, hno, ?_, hno, fun _ => hno,
    ?_, ?_, ⟨?_, ?_, hc.reader.left, hc.reader.reads, ?_, ?_, ?_⟩, ?_⟩
  · intro hen'
    exact Bool.noConfusion (hen'.symm.trans hen)
  · exact ⟨[], (List.append_nil _).trans hall⟩
  · intro _
    exact (List.append_nil _).trans hall
  · intro hidle
    exact hstay (hc.reader.idle hidle)
  · intro hbusy
    exact hstay (hc.reader.busy (hptr ▸ hbusy))
  · intro _ hreads
    exact hne _ (by decide) (hc.reader.awake hon hreads)
  · exact hne _ (by decide) hc.reader.no_timeout
  · intro hwait
    rcases hw with ⟨hw, hcnt⟩ | hw
    · exact ⟨hcnt.trans (hc.reader.asleep (hw.symm.trans hwait)).1, hsusp.trans (hc.resumed hon)⟩
    · exact absurd (hw.symm.trans hwait) ThreadsQueue.dequeue_ne_waiting
  · intro _
    exact hsusp.trans (hc.resumed hon)

/-- A completed transfer is posted, and the next one started. -/
theorem otg_epout_handler_spec (hl : s.link.Ok) (hi : s.inSide.Inv)
    (hon : s.otg.daintmsk = true) (hx : s.otg.oe.xfrc = true) :
    ∃ s', s.otg_epout_handler = some s' ∧ s'.link = s.link ∧ s'.outSide = s.outSide ∧
      s'.inSide.Inv := by
  have hc := hi.core
  have hr := (hc.xfrc hx).1
  have hcnt : s.usbp.outState.rxcnt ≤ SERIAL_USB_BUFFERS_SIZE := hc.rxcnt hr
  have hcase : ∃ q, (s.doneReceiving q).inSide.Core ∧
      s.otg_epout_handler = (s.doneReceiving q).sdu_start_receive := by
    rw [otg_epout_handler, sduDataReceived]
    by_cases hpos : 0 < s.usbp.outState.rxcnt
    · obtain ⟨q, hpost, hposted⟩ := hc.queue.post (hc.free hr) hpos (by rw [hc.bsize]; omega)
      refine ⟨q, core_doneReceiving hc hon hx hposted.ok hposted.unread hposted.ptr
        (.inr hposted.waiting) hposted.bsize hposted.bn hposted.suspended, ?_⟩
      simp only [hpos, if_true]
      rw [show s.ibqueue.ibqPostFullBufferI s.usbp.outState.rxcnt = some q from hpost]
      rfl
    · have hzero : s.usbp.outState.rxcnt = 0 := Nat.eq_zero_of_not_pos hpos
      refine ⟨s.ibqueue, core_doneReceiving hc hon hx hc.queue ?_ rfl (.inl ⟨rfl, rfl⟩) rfl rfl rfl, ?_⟩
      · rw [hzero, slice_zero, List.append_nil]
      · simp only [hpos, if_false]
        rfl
  obtain ⟨q, hcore, heq⟩ := hcase
  rw [heq]
  exact sdu_start_receive_spec (s := s.doneReceiving q) hl hcore

/-! ### The thread that reads -/

/-- A call that got more bytes and goes on. -/
theorem readsOk_more {call : ReadCall} {carried bytes : List UInt8} {reads : List (ℕ × List UInt8)}
    {rest : List UInt8} (h : ReadsOk (some call) reads) (hlt : bytes.length < call.left) :
    ReadsOk (some ⟨call.left - bytes.length, rest⟩) (appendLast carried bytes reads).2 := by
  cases h with
  | carried => exact .carried _
  | @within done got _ hall =>
    rw [appendLast_snoc]
    have hlen : got.length + call.left = (got ++ bytes).length + (call.left - bytes.length) := by
      rw [List.length_append]
      omega
    rw [hlen]
    exact .within hall

/-- A call that got its last bytes. -/
theorem readsOk_last {call : ReadCall} {carried bytes : List UInt8} {reads : List (ℕ × List UInt8)}
    (h : ReadsOk (some call) reads) (heq : bytes.length = call.left) (hpos : 0 < bytes.length) :
    ReadsOk none (appendLast carried bytes reads).2 := by
  cases h with
  | carried => exact .between (by simp [appendLast])
  | @within done got _ hall =>
    rw [appendLast_snoc]
    refine .between ?_
    rw [List.forall_mem_append, List.forall_mem_singleton]
    exact ⟨hall, List.append_ne_nil_of_right_ne_nil _ (List.ne_nil_of_length_pos hpos),
      by rw [List.length_append, heq]⟩

/-- The thread goes to sleep, with nothing to read. -/
theorem read_wait_spec (hi : s.inSide.Inv) {call : ReadCall} (hcall : s.reader = some call)
    (hptr : s.ibqueue.ptr = none)
    (hwhy : s.ibqueue.waiting = .waiting ∨ s.ibqueue.bcounter = 0 ∧ s.ibqueue.suspended = false) :
    (inSide { s with ibqueue := { s.ibqueue with waiting := .waiting } }).Inv := by
  have hc := hi.core
  refine ⟨⟨⟨hc.queue.ring, hc.queue.ptr⟩, hc.bsize, hc.bn, hc.epc, hc.free, hc.rxbuf, hc.rxsize,
    hc.rxcnt, hc.epena, hc.xfrc, hc.served, hc.reached, hc.exact, ⟨?_, ?_, hc.reader.left,
      hc.reader.reads, ?_, ?_, fun _ => hwhy.elim hc.reader.asleep id⟩, hc.resumed⟩, hi.armed⟩
  · intro hidle
    have : s.reader = none := hidle
    rw [hcall] at this
    cases this
  · intro hbusy
    exact absurd hptr hbusy
  · intro _ _ h
    cases h
  · intro h
    cases h

/-- The thread gives the call up, which with the endpoint on only one from before does. -/
theorem read_reset_spec (hi : s.inSide.Inv) (hwhy : s.ibqueue.GivenUp) :
    (inSide { s with
      ibqueue := { s.ibqueue with waiting := .empty }
      reader := none }).Inv := by
  have hc := hi.core
  refine ⟨⟨⟨hc.queue.ring, hc.queue.ptr⟩, hc.bsize, hc.bn, hc.epc, hc.free, hc.rxbuf, hc.rxsize,
    hc.rxcnt, hc.epena, hc.xfrc, hc.served, hc.reached, hc.exact, ⟨fun _ => rfl, fun _ => rfl,
      fun _ h => by simp [inSide] at h, ?_, ?_, ?_, fun h => by cases h⟩, hc.resumed⟩, hi.armed⟩
  · intro hon
    have hnil : s.inSide.reads = [] := by
      by_contra hne
      cases hwhy with
      | @told msg h hmsg =>
        cases msg with
        | MSG_OK => exact hmsg rfl
        | MSG_TIMEOUT => exact hc.reader.no_timeout h
        | MSG_RESET => exact hc.reader.awake hon hne h
      | suspended h => exact Bool.noConfusion (h.symm.trans (hc.resumed hon))
    show ReadsOk none s.inSide.reads
    rw [hnil]
    exact .between (by simp)
  · intro _ _ h
    cases h
  · intro h
    cases h

/-- The driver with bytes moved to the thread. -/
def tookBytes (s : SerialUSB) (call : ReadCall) (bytes : List UInt8) (q : IoBuffersQueue) :
    SerialUSB :=
  { s with
    ibqueue := q
    session := s.session.read bytes
    reader := if call.left ≤ bytes.length then none
      else some ⟨call.left - bytes.length, call.bytes ++ bytes⟩ }

theorem core_tookBytes (hc : s.inSide.Core) {call : ReadCall} (hcall : s.reader = some call)
    {bytes : List UInt8} {notify : Bool} {q : IoBuffersQueue}
    (htook : s.ibqueue.TookIn q bytes call.left notify)
    (hw : q.waiting = .empty ∨ s.ibqueue.ptr ≠ none ∧ q.waiting = s.ibqueue.waiting) :
    (s.tookBytes call bytes q).inSide.Core := by
  have hempty : q.waiting = .empty := by
    rcases hw with hw | ⟨hptr, hw⟩
    · exact hw
    · exact hw.trans (hc.reader.busy hptr)
  have hle : q.bcounter ≤ s.ibqueue.bcounter := by
    rw [← htook.bcounter]
    exact Nat.le_add_right _ _
  have hread : (s.tookBytes call bytes q).inSide.readOut = s.inSide.readOut ++ bytes :=
    loggedBytes_appendLast
  have hall : (s.tookBytes call bytes q).inSide.readOut ++ q.unread =
      s.inSide.readOut ++ s.ibqueue.unread := by
    rw [hread, htook.unread, List.append_assoc]
  have hpartly : (s.tookBytes call bytes q).inSide.partly = s.inSide.partly := by
    show (if s.usbp.receiving = true then slice q.mem (q.bwrptr + _) _ else []) = _
    rw [htook.mem, htook.bwrptr]
    rfl
  have hcalls : s.otg.daintmsk = true → ReadsOk (some call) s.session.reads := by
    intro hon
    rw [← hcall]
    exact hc.reader.reads hon
  refine ⟨htook.ok, htook.bsize.trans hc.bsize, htook.bn.trans hc.bn, hc.epc, ?_, ?_, hc.rxsize,
    hc.rxcnt, hc.epena, hc.xfrc, hc.served, ?_, ?_, ⟨fun _ => hempty, fun _ => hempty, ?_, ?_, ?_, ?_,
      fun h => ThreadsQueue.noConfusion (hempty.symm.trans h)⟩,
    fun hon => htook.suspended.trans (hc.resumed hon)⟩
  · intro hr
    have hfree : s.ibqueue.bcounter < s.ibqueue.bn := hc.free hr
    show q.bcounter < q.bn
    rw [htook.bn]
    omega
  · intro hr
    show _ = q.bwrptr + _ + _
    rw [htook.bwrptr]
    exact hc.rxbuf hr
  · rw [show (s.tookBytes call bytes q).inSide.q = q from rfl, hall]
    exact hc.reached
  · intro hon
    rw [show (s.tookBytes call bytes q).inSide.q = q from rfl, hall, hpartly]
    exact hc.exact hon
  · intro c hc'
    have hreader : (if call.left ≤ bytes.length then none
      else some (⟨call.left - bytes.length, call.bytes ++ bytes⟩ : ReadCall)) = some c := hc'
    by_cases hend : call.left ≤ bytes.length
    · simp [hend] at hreader
    · rw [if_neg hend] at hreader
      obtain rfl := Option.some.inj hreader
      exact Nat.sub_pos_of_lt (Nat.lt_of_not_le hend)
  · intro hon
    show ReadsOk (if call.left ≤ bytes.length then none
      else some (⟨call.left - bytes.length, call.bytes ++ bytes⟩ : ReadCall)) _
    by_cases hend : call.left ≤ bytes.length
    · rw [if_pos hend]
      exact readsOk_last (hcalls hon) (Nat.le_antisymm htook.length_le hend) htook.some_moved
    · rw [if_neg hend]
      exact readsOk_more (hcalls hon) (Nat.lt_of_not_le hend)
  · intro _ _ h
    rw [show (s.tookBytes call bytes q).inSide.q.waiting = .empty from hempty] at h
    cases h
  · intro h
    rw [show (s.tookBytes call bytes q).inSide.q.waiting = .empty from hempty] at h
    cases h

/-- A pass of `ibqReadTimeout`, whatever it does. -/
theorem readPass_spec (hl : s.link.Ok) (hi : s.inSide.Inv) {call : ReadCall}
    (hcall : s.reader = some call) :
    ∃ s', s.readPass call = some s' ∧ s'.link = s.link ∧ s'.outSide = s.outSide ∧
      s'.inSide.Inv := by
  have hc := hi.core
  obtain ⟨r, hr, hpassed⟩ := hc.queue.readPass (hc.reader.left call hcall)
  rw [readPass, show s.ibqueue.ibqReadPass call.left = some r from hr]
  cases hpassed with
  | @moved bytes notify q htook hw =>
    have hcore := core_tookBytes hc hcall htook hw
    cases notify with
    | true => exact sdu_start_receive_spec (s := s.tookBytes call bytes q) hl hcore
    | false =>
      refine ⟨s.tookBytes call bytes q, rfl, rfl, rfl, hcore, ?_⟩
      intro hon
      show s.usbp.receiving = true ∨ q.bcounter = q.bn
      rw [← show s.ibqueue.bcounter = q.bcounter from htook.bcounter.symm, htook.bn]
      exact hi.armed hon
  | reset hptr hwhy => exact ⟨_, rfl, rfl, rfl, read_reset_spec hi hwhy⟩
  | wait hptr tq htq hwhy =>
    subst htq
    exact ⟨_, rfl, rfl, rfl, read_wait_spec hi hcall hptr hwhy⟩

/-- A call of `ibqReadTimeout` begins. -/
theorem read_spec (hi : s.inSide.Inv) (hidle : s.reader = none) {n : ℕ} (hn : 0 < n) :
    (inSide { s with
      reader := some ⟨n, []⟩
      session := { s.session with reads := s.session.reads ++ [(n, [])] } }).Inv := by
  have hc := hi.core
  have hwait : s.ibqueue.waiting = .empty := hc.reader.idle hidle
  have hread : loggedBytes s.session.carriedIn (s.session.reads ++ [(n, [])]) = s.inSide.readOut := by
    simp [loggedBytes, InSide.readOut, inSide]
  refine ⟨⟨hc.queue, hc.bsize, hc.bn, hc.epc, hc.free, hc.rxbuf, hc.rxsize, hc.rxcnt, hc.epena,
    hc.xfrc, hc.served, ?_, ?_, ⟨fun _ => hwait, fun _ => hwait, ?_, ?_, ?_, ?_,
      fun h => ThreadsQueue.noConfusion (hwait.symm.trans h)⟩, hc.resumed⟩, hi.armed⟩
  · have hreached := hc.reached
    rw [← hread] at hreached
    exact hreached
  · intro hon
    have hexact := hc.exact hon
    rw [← hread] at hexact
    exact hexact
  · intro call hcall
    obtain rfl := Option.some.inj hcall
    exact hn
  · intro hon
    have hold : ReadsOk s.reader s.session.reads := hc.reader.reads hon
    rw [hidle] at hold
    cases hold with
    | between hall =>
      have hwithin : ReadsOk (some ⟨n, []⟩)
          (s.session.reads ++ [(([] : List UInt8).length + n, [])]) := .within hall
      rw [List.length_nil, Nat.zero_add] at hwithin
      exact hwithin
  · intro _ _ h
    exact ThreadsQueue.noConfusion (hwait.symm.trans h)
  · intro h
    exact ThreadsQueue.noConfusion (hwait.symm.trans h)

end SerialUSB

end Stmdsp
