import Stmdsp.Model.SerialUSB
import Stmdsp.Proofs.BufferQueues

/-! The serial driver taken apart: the state of the link, the side that receives and
the side that transmits, with the invariant of each. A step of one side leaves the
other alone. -/

namespace Stmdsp

/-! ### The log of calls -/

section Calls

variable {α : Type} {carried bytes l : List UInt8} {es : List (α × List UInt8)} {a : α}

/-- All bytes of the log, in order. -/
def loggedBytes (carried : List UInt8) (es : List (α × List UInt8)) : List UInt8 :=
  carried ++ (es.map Prod.snd).flatten

theorem appendLast_snoc :
    appendLast carried bytes (es ++ [(a, l)]) = (carried, es ++ [(a, l ++ bytes)]) := by
  induction es with
  | nil => rfl
  | cons e es ih =>
    cases es with
    | nil => rfl
    | cons e' es =>
      rw [List.cons_append, List.cons_append, appendLast, ← List.cons_append, ih]
      rfl

theorem loggedBytes_appendLast :
    loggedBytes (appendLast carried bytes es).1 (appendLast carried bytes es).2 =
      loggedBytes carried es ++ bytes := by
  rcases List.eq_nil_or_concat es with rfl | ⟨es, ⟨a, l⟩, rfl⟩
  · simp [appendLast, loggedBytes]
  · rw [List.concat_eq_append, appendLast_snoc]
    simp [loggedBytes]

end Calls

/-- The part of the driver that receives. -/
structure InSide where
  on : Bool
  epc : Bool
  q : IoBuffersQueue
  receiving : Bool
  osp : USBOutEndpointState
  oe : OtgOut
  reader : Option ReadCall
  sent : List (List UInt8)
  carried : List UInt8
  reads : List (ℕ × List UInt8)

def SerialUSB.inSide (s : SerialUSB) : InSide where
  on := s.otg.daintmsk
  epc := s.usbp.epc
  q := s.ibqueue
  receiving := s.usbp.receiving
  osp := s.usbp.outState
  oe := s.otg.oe
  reader := s.reader
  sent := s.session.sent
  carried := s.session.carriedIn
  reads := s.session.reads

namespace InSide

/-- The bytes that the thread has read. -/
def readOut (i : InSide) : List UInt8 := loggedBytes i.carried i.reads

/-- The bytes that the transfer in progress has brought. -/
def partly (i : InSide) : List UInt8 :=
  if i.receiving then slice i.q.mem (i.q.bwrptr + SIZEOF_SIZE_T) i.osp.rxcnt else []

/-- The calls in the log: all but the one in progress have got what they asked for. -/
inductive ReadsOk : Option ReadCall → List (ℕ × List UInt8) → Prop
  | between {reads : List (ℕ × List UInt8)} (hall : ∀ r ∈ reads, r.2 ≠ [] ∧ r.2.length = r.1) :
      ReadsOk none reads
  | carried (call : ReadCall) : ReadsOk (some call) []
  | within {done : List (ℕ × List UInt8)} {got : List UInt8} {call : ReadCall}
      (hall : ∀ r ∈ done, r.2 ≠ [] ∧ r.2.length = r.1) :
      ReadsOk (some call) (done ++ [(got.length + call.left, got)])

/-- The thread that reads. With the endpoint on, only a call from before can be told to
give up. -/
structure ReaderOk (i : InSide) : Prop where
  idle : i.reader = none → i.q.waiting = .empty
  busy : i.q.ptr ≠ none → i.q.waiting = .empty
  left : ∀ call, i.reader = some call → 0 < call.left
  reads : i.on = true → ReadsOk i.reader i.reads
  awake : i.on = true → i.reads ≠ [] → i.q.waiting ≠ .resumed .MSG_RESET
  no_timeout : i.q.waiting ≠ .resumed .MSG_TIMEOUT
  asleep : i.q.waiting = .waiting → i.q.bcounter = 0 ∧ i.q.suspended = false

/-- Without a promise that a transfer is in progress. -/
structure Core (i : InSide) : Prop where
  queue : i.q.InOk
  bsize : i.q.bsize = SERIAL_USB_BUFFERS_SIZE + SIZEOF_SIZE_T
  bn : i.q.bn = SERIAL_USB_BUFFERS_NUMBER
  epc : i.receiving = true → i.epc = true
  free : i.receiving = true → i.q.bcounter < i.q.bn
  rxbuf : i.receiving = true → i.osp.rxbuf = i.q.bwrptr + SIZEOF_SIZE_T + i.osp.rxcnt
  rxsize : i.receiving = true → i.osp.rxsize = SERIAL_USB_BUFFERS_SIZE
  rxcnt : i.receiving = true → i.osp.rxcnt ≤ SERIAL_USB_BUFFERS_SIZE
  epena : i.oe.epena = true → i.receiving = true ∧ 0 < i.oe.pktcnt ∧
    i.osp.rxcnt + EP1_MAXSIZE * i.oe.pktcnt = SERIAL_USB_BUFFERS_SIZE
  xfrc : i.oe.xfrc = true → i.receiving = true ∧ i.oe.epena = false
  served : i.on = true → i.receiving = true → i.oe.epena = true ∨ i.oe.xfrc = true
  reached : i.readOut ++ i.q.unread <+: i.sent.flatten
  exact : i.on = true → i.readOut ++ i.q.unread ++ i.partly = i.sent.flatten
  reader : i.ReaderOk
  resumed : i.on = true → i.q.suspended = false

/-- With the endpoint on, a transfer is in progress unless all buffers are full. -/
structure Inv (i : InSide) : Prop where
  core : i.Core
  armed : i.on = true → i.receiving = true ∨ i.q.bcounter = i.q.bn

end InSide

/-- The part of the driver that transmits. -/
structure OutSide where
  on : Bool
  epc : Bool
  q : IoBuffersQueue
  transmitting : Bool
  isp : USBInEndpointState
  ie : OtgIn
  empmsk : Bool
  writer : Option (List UInt8)
  received : List (List UInt8)
  carried : List UInt8
  writes : List (List UInt8 × List UInt8)

def SerialUSB.outSide (s : SerialUSB) : OutSide where
  on := s.otg.daintmsk
  epc := s.usbp.epc
  q := s.obqueue
  transmitting := s.usbp.transmitting
  isp := s.usbp.inState
  ie := s.otg.ie
  empmsk := s.otg.diepempmsk
  writer := s.writer
  received := s.session.received
  carried := s.session.carriedOut
  writes := s.session.writes

namespace OutSide

/-- The bytes that the thread has written. -/
def written (o : OutSide) : List UInt8 := loggedBytes o.carried o.writes

/-- The bytes of the host and of the TX FIFO. -/
def gone (o : OutSide) : List UInt8 := o.received.flatten ++ o.ie.fifo.flatten

/-- How much of the first full buffer they include. -/
def sentOff (o : OutSide) : ℕ := if o.transmitting then o.isp.txcnt else 0

/-- The last packet the host got was a short one, so that its transfer has ended. -/
def Ended (o : OutSide) : Prop :=
  ∀ p, o.received.getLast? = some p → p.length < EP1_MAXSIZE

/-- No transfer in progress. -/
structure Idle (o : OutSide) : Prop where
  transmitting : o.transmitting = false
  fifo : o.ie.fifo = []
  epena : o.ie.epena = false
  xfrc : o.ie.xfrc = false
  done : o.isp.txsize ≤ o.isp.txcnt
  ended : o.Ended

/-- The first full buffer in transfer, with packets still to come. -/
structure Sending (o : OutSide) (acked : ℕ) : Prop where
  transmitting : o.transmitting = true
  full : o.q.bcounter < o.q.bn
  txbuf : o.isp.txbuf = o.q.brdptr + SIZEOF_SIZE_T + o.isp.txcnt
  txsize : o.isp.txsize = o.q.size o.q.brdptr
  totsize : o.isp.totsize = o.isp.txsize
  txcnt : o.isp.txcnt = acked + o.ie.fifo.flatten.length
  epena : o.ie.epena = true
  xfrc : o.ie.xfrc = false
  whole : acked % EP1_MAXSIZE = 0
  acked_lt : acked < o.isp.txsize
  pktcnt : o.ie.pktcnt = (o.isp.txsize - acked + EP1_MAXSIZE - 1) / EP1_MAXSIZE
  xfrsiz : o.ie.xfrsiz = o.isp.txsize - acked
  fifo : o.ie.fifo = [] ∨ ∃ p, o.ie.fifo = [p] ∧ p.length = min (o.isp.txsize - acked) EP1_MAXSIZE
  filling : o.isp.txcnt < o.isp.txsize → o.empmsk = true

/-- The first full buffer transferred, and the interrupt not yet served. -/
structure Sent (o : OutSide) : Prop where
  transmitting : o.transmitting = true
  full : o.q.bcounter < o.q.bn
  txsize : o.isp.txsize = o.q.size o.q.brdptr
  totsize : o.isp.totsize = o.isp.txsize
  txcnt : o.isp.txcnt = o.isp.txsize
  epena : o.ie.epena = false
  xfrc : o.ie.xfrc = true
  fifo : o.ie.fifo = []
  ended : o.isp.txsize % EP1_MAXSIZE = 0 ∨ o.Ended

/-- A transfer of size zero. -/
structure Ending (o : OutSide) : Prop where
  transmitting : o.transmitting = true
  txsize : o.isp.txsize = 0
  totsize : o.isp.totsize = 0
  txcnt : o.isp.txcnt = 0
  fifo : o.ie.fifo = []
  running : o.ie.epena = true ∧ o.ie.xfrc = false ∧ o.ie.pktcnt = 1 ∧ o.ie.xfrsiz = 0 ∨
    o.ie.epena = false ∧ o.ie.xfrc = true ∧ o.Ended

/-- What the endpoint is doing while it is on. -/
inductive Phase (o : OutSide) : Prop
  | idle (h : o.Idle)
  | sending (acked : ℕ) (h : o.Sending acked)
  | sent (h : o.Sent)
  | ending (h : o.Ending)

/-- The calls in the log: all but the one in progress have written what they were
given. -/
inductive WritesOk : Option (List UInt8) → List (List UInt8 × List UInt8) → Prop
  | between {writes : List (List UInt8 × List UInt8)} (hall : ∀ w ∈ writes, w.2 = w.1) :
      WritesOk none writes
  | carried (rest : List UInt8) : WritesOk (some rest) []
  | within {done : List (List UInt8 × List UInt8)} {put rest : List UInt8}
      (hall : ∀ w ∈ done, w.2 = w.1) : WritesOk (some rest) (done ++ [(put ++ rest, put)])

/-- The thread that writes. -/
structure WriterOk (o : OutSide) : Prop where
  idle : o.writer = none → o.q.waiting = .empty
  busy : o.q.ptr ≠ none → o.q.waiting = .empty
  left : ∀ rest, o.writer = some rest → 0 < rest.length
  writes : o.on = true → WritesOk o.writer o.writes
  awake : o.on = true → o.writes ≠ [] → o.q.waiting ≠ .resumed .MSG_RESET
  no_timeout : o.q.waiting ≠ .resumed .MSG_TIMEOUT
  asleep : o.q.waiting = .waiting → o.q.bcounter = 0 ∧ o.q.suspended = false

/-- The queue, the stream and the thread. -/
structure Base (o : OutSide) : Prop where
  queue : o.q.OutOk
  bsize : o.q.bsize = SERIAL_USB_BUFFERS_SIZE + SIZEOF_SIZE_T
  bn : o.q.bn = SERIAL_USB_BUFFERS_NUMBER
  epc : o.transmitting = true ∨ o.ie.epena = true ∨ o.ie.xfrc = true → o.epc = true
  reached : o.gone <+: o.written
  exact : o.on = true → o.gone ++ o.q.pending.drop o.sentOff = o.written
  writer : o.WriterOk
  resumed : o.on = true → o.q.suspended = false

/-- Without a promise that a transfer is in progress. -/
structure Core (o : OutSide) : Prop where
  base : o.Base
  phase : o.on = true → o.Phase

/-- With the endpoint on, a transfer is in progress unless no buffer is full. -/
structure Inv (o : OutSide) : Prop where
  core : o.Core
  sends : o.on = true → o.transmitting = true ∨ o.q.bcounter = o.q.bn

end OutSide

/-- The state of the link. -/
structure SerialLink where
  sdu : SDUState
  state : USBState
  saved : USBState
  epc : Bool
  on : Bool

def SerialUSB.link (s : SerialUSB) : SerialLink where
  sdu := s.state
  state := s.usbp.state
  saved := s.usbp.savedState
  epc := s.usbp.epc
  on := s.otg.daintmsk

structure SerialLink.Ok (l : SerialLink) : Prop where
  sdu : l.sdu = .SDU_READY
  epc : l.epc = true ↔ l.state = .USB_ACTIVE ∨ l.state = .USB_SUSPENDED ∧ l.saved = .USB_ACTIVE
  saved : l.saved ≠ .USB_SUSPENDED
  on : l.on = true → l.state = .USB_ACTIVE

/-- The invariant of the driver. -/
structure SerialUSB.Inv (s : SerialUSB) : Prop where
  link : s.link.Ok
  rx : s.inSide.Inv
  tx : s.outSide.Inv

namespace SerialUSB

variable {s : SerialUSB}

theorem active_of_on (hl : s.link.Ok) (hon : s.otg.daintmsk = true) : s.active = true := by
  have hstate : s.usbp.state = .USB_ACTIVE := hl.on hon
  have hsdu : s.state = .SDU_READY := hl.sdu
  rw [active, hstate, hsdu]
  rfl

theorem epc_of_active (hl : s.link.Ok) (h : s.active = true) : s.usbp.epc = true := by
  rw [active, Bool.and_eq_true, beq_iff_eq, beq_iff_eq] at h
  exact hl.epc.mpr (.inl h.1)

end SerialUSB

end Stmdsp
