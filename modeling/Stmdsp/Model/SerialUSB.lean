import Stmdsp.Lib.Run
import Stmdsp.Model.Buffers

/-! The serial stream between the host and the command thread: ChibiOS's serial over
USB driver (`hal_serial_usb.c`) on its buffers queues, the USB driver (`hal_usb.c`) and
the OTG peripheral (`OTGv1/hal_usb_lld.c`) as far as endpoint 1 goes, the firmware's
`usbcfg.c`, and the bus. One step is one interrupt service, one bus event, or one
critical section of the thread that reads or writes. -/

namespace Stmdsp

def SERIAL_USB_BUFFERS_SIZE : ℕ := 256

def SERIAL_USB_BUFFERS_NUMBER : ℕ := 2

/-- `in_maxsize` and `out_maxsize` of `ep1config`. -/
def EP1_MAXSIZE : ℕ := 0x40

inductive USBState where
  | USB_STOP
  | USB_READY
  | USB_SELECTED
  | USB_ACTIVE
  | USB_SUSPENDED
  deriving DecidableEq, Repr

inductive SDUState where
  | SDU_STOP
  | SDU_READY
  deriving DecidableEq, Repr

/-- `txbuf` is an offset into the output queue; no byte of a zero-size transfer is
ever fetched. -/
structure USBInEndpointState where
  txbuf : ℕ
  txsize : ℕ
  txcnt : ℕ
  totsize : ℕ

/-- `rxbuf` is an offset into the input queue. -/
structure USBOutEndpointState where
  rxbuf : ℕ
  rxsize : ℕ
  rxcnt : ℕ
  totsize : ℕ

/-- `USBDriver`; of the bit masks and of `epc` what belongs to endpoint 1. -/
structure USBDriver where
  state : USBState
  savedState : USBState
  configuration : UInt8
  transmitting : Bool
  receiving : Bool
  /-- `epc[1]` is `&ep1config` and not `NULL`. -/
  epc : Bool
  inState : USBInEndpointState
  outState : USBOutEndpointState

/-- The registers of the IN endpoint, and the packets in its TX FIFO. -/
structure OtgIn where
  epena : Bool
  pktcnt : ℕ
  xfrsiz : ℕ
  xfrc : Bool
  fifo : List (List UInt8)

structure OtgOut where
  epena : Bool
  pktcnt : ℕ
  xfrc : Bool

/-- `daintmsk` and `diepempmsk` are the bits of endpoint 1. An endpoint whose bit in
`DAINTMSK` is clear raises no interrupt. -/
structure Otg where
  daintmsk : Bool
  diepempmsk : Bool
  ie : OtgIn
  oe : OtgOut

/-- What both sides have done since endpoint 1 was last configured: the packets the
host sent and received, and the calls of the thread. A call of `ibqReadTimeout` is the
count it asked for with the bytes it got, one of `obqWriteTimeout` the bytes it was given
with those it wrote; `carriedIn` and `carriedOut` are what calls moved that were already
in progress. -/
structure USBSession where
  sent : List (List UInt8)
  received : List (List UInt8)
  carriedIn : List UInt8
  reads : List (ℕ × List UInt8)
  carriedOut : List UInt8
  writes : List (List UInt8 × List UInt8)

/-- A call of `ibqReadTimeout`: the bytes still asked for, and those at `bp`. -/
structure ReadCall where
  left : ℕ
  bytes : List UInt8

structure SerialUSB where
  state : SDUState
  ibqueue : IoBuffersQueue
  obqueue : IoBuffersQueue
  usbp : USBDriver
  otg : Otg
  reader : Option ReadCall
  /-- The bytes that a call of `obqWriteTimeout` has still to write. -/
  writer : Option (List UInt8)
  session : USBSession

/-- The bytes go to the last entry, or to `carried` where there is none. -/
def appendLast {α : Type} (carried : List UInt8) (bytes : List UInt8) :
    List (α × List UInt8) → List UInt8 × List (α × List UInt8)
  | [] => (carried ++ bytes, [])
  | [(a, l)] => (carried, [(a, l ++ bytes)])
  | e :: e' :: es => ((appendLast carried bytes (e' :: es)).1,
      e :: (appendLast carried bytes (e' :: es)).2)

namespace USBSession

def start : USBSession := ⟨[], [], [], [], [], []⟩

def read (bytes : List UInt8) (l : USBSession) : USBSession :=
  { l with
    carriedIn := (appendLast l.carriedIn bytes l.reads).1
    reads := (appendLast l.carriedIn bytes l.reads).2 }

def wrote (bytes : List UInt8) (l : USBSession) : USBSession :=
  { l with
    carriedOut := (appendLast l.carriedOut bytes l.writes).1
    writes := (appendLast l.carriedOut bytes l.writes).2 }

end USBSession

namespace SerialUSB

/-! ### The peripheral -/

/-- `usb_lld_start_in` -/
def usb_lld_start_in (s : SerialUSB) : SerialUSB :=
  let txsize := s.usbp.inState.txsize
  { s with
    usbp := { s.usbp with inState := { s.usbp.inState with totsize := txsize } }
    otg := { s.otg with
      diepempmsk := true
      ie := { s.otg.ie with
        epena := true
        pktcnt := if txsize = 0 then 1 else (txsize + EP1_MAXSIZE - 1) / EP1_MAXSIZE
        xfrsiz := txsize } } }

/-- `usb_lld_start_out`; the packet count of endpoint 1 covers a whole transfer. -/
def usb_lld_start_out (s : SerialUSB) : SerialUSB :=
  let rxsize := s.usbp.outState.rxsize
  { s with
    usbp := { s.usbp with outState := { s.usbp.outState with totsize := rxsize } }
    otg := { s.otg with
      oe := { s.otg.oe with epena := true, pktcnt := (rxsize + EP1_MAXSIZE - 1) / EP1_MAXSIZE } } }

/-- `otg_disable_ep`: transfers end, interrupt flags are cleared and masked. The FIFO
keeps its packets. -/
def otg_disable_ep (s : SerialUSB) : SerialUSB :=
  { s with otg := { s.otg with
      daintmsk := false
      ie := { s.otg.ie with epena := false, xfrc := false }
      oe := { s.otg.oe with epena := false, xfrc := false } } }

/-- `usb_lld_reset` -/
def usb_lld_reset (s : SerialUSB) : SerialUSB :=
  { s.otg_disable_ep with otg := { s.otg_disable_ep.otg with diepempmsk := false } }

/-- `usb_lld_init_endpoint` for endpoint 1, which flushes the TX FIFO. -/
def usb_lld_init_endpoint (s : SerialUSB) : SerialUSB :=
  { s with otg := { s.otg with
      daintmsk := true
      ie := { s.otg.ie with epena := false, pktcnt := 0, xfrsiz := 0, fifo := [] }
      oe := { s.otg.oe with epena := false, pktcnt := 0 } } }

/-! ### The USB driver: transfers -/

/-- `usbStartReceiveI` on endpoint 1. -/
def usbStartReceiveI (s : SerialUSB) (buf n : ℕ) : Option SerialUSB :=
  if s.usbp.receiving = false ∧ s.usbp.epc = true then
    some (usb_lld_start_out { s with usbp := { s.usbp with
      receiving := true
      outState := { s.usbp.outState with rxbuf := buf, rxsize := n, rxcnt := 0 } } })
  else none

/-- `usbStartTransmitI` on endpoint 1. -/
def usbStartTransmitI (s : SerialUSB) (buf n : ℕ) : Option SerialUSB :=
  if s.usbp.transmitting = false ∧ s.usbp.epc = true then
    some (usb_lld_start_in { s with usbp := { s.usbp with
      transmitting := true
      inState := { s.usbp.inState with txbuf := buf, txsize := n, txcnt := 0 } } })
  else none

/-! ### The serial over USB driver -/

/-- The driver may start transfers. -/
def active (s : SerialUSB) : Bool := s.usbp.state == .USB_ACTIVE && s.state == .SDU_READY

/-- `sdu_start_receive`. The status it checks is that of endpoint `bulk_in`, which
has the same number as `bulk_out`. -/
def sdu_start_receive (s : SerialUSB) : Option SerialUSB :=
  if s.active = false then some s
  else if s.usbp.receiving then some s
  else match s.ibqueue.ibqGetEmptyBufferI with
    | none => some s
    | some buf => s.usbStartReceiveI buf SERIAL_USB_BUFFERS_SIZE

def ibnotify (s : SerialUSB) : Option SerialUSB := s.sdu_start_receive

/-- Starts transmitting the first full buffer, which has to be there. -/
def transmitFull (s : SerialUSB) : Option SerialUSB :=
  match s.obqueue.obqGetFullBufferI with
  | some (buf, n) => s.usbStartTransmitI buf n
  | none => none

def obnotify (s : SerialUSB) : Option SerialUSB :=
  if s.active = false then some s
  else if s.usbp.transmitting then some s
  else s.transmitFull

def sduSOFHookI (s : SerialUSB) : Option SerialUSB :=
  if s.active = false then some s
  else if s.usbp.transmitting then some s
  else match s.obqueue.obqTryFlushI with
    | (true, q) => transmitFull { s with obqueue := q }
    | (false, q) => some { s with obqueue := q }

/-- The end of `sduDataTransmitted`, after a transfer of `txsize` bytes. -/
def transmitNext (s : SerialUSB) (txsize : ℕ) : Option SerialUSB :=
  match s.obqueue.obqGetFullBufferI with
  | some (buf, n) => s.usbStartTransmitI buf n
  | none =>
    -- A transfer of whole packets is ended by one of size zero.
    if 0 < txsize ∧ txsize &&& (EP1_MAXSIZE - 1) = 0 then s.usbStartTransmitI 0 0 else some s

def sduDataTransmitted (s : SerialUSB) : Option SerialUSB := do
  let txsize := s.usbp.inState.txsize
  let s ← if 0 < txsize then s.obqueue.obqReleaseEmptyBufferI.map fun q => { s with obqueue := q }
    else some s
  s.transmitNext txsize

def sduDataReceived (s : SerialUSB) : Option SerialUSB := do
  let size := s.usbp.outState.rxcnt
  let s ← if 0 < size then s.ibqueue.ibqPostFullBufferI size |>.map fun q => { s with ibqueue := q }
    else some s
  s.sdu_start_receive

def sduSuspendHookI (s : SerialUSB) : SerialUSB :=
  if s.ibqueue.suspended && s.obqueue.suspended then s
  else { s with ibqueue := s.ibqueue.bqSuspendI, obqueue := s.obqueue.bqSuspendI }

def sduWakeupHookI (s : SerialUSB) : SerialUSB :=
  { s with ibqueue := s.ibqueue.bqResumeX, obqueue := s.obqueue.bqResumeX }

def sduConfigureHookI (s : SerialUSB) : Option SerialUSB :=
  sdu_start_receive { s with
    ibqueue := s.ibqueue.ibqResetI.bqResumeX
    obqueue := s.obqueue.obqResetI.bqResumeX }

/-! ### Endpoint interrupts -/

/-- Space in the TX FIFO of `in_maxsize / 4` words, in bytes. -/
def dtxfsts (fifo : List (List UInt8)) : ℕ :=
  (EP1_MAXSIZE / 4 - (fifo.map fun p => (p.length + 3) / 4).sum) * 4

/-- The loop of `otg_txfifo_handler`. The last component says whether it got to the
end of the transfer, where the FIFO interrupt is masked. -/
def fillFifo (mem : ℕ → UInt8) (isp : USBInEndpointState) (fifo : List (List UInt8)) :
    USBInEndpointState × List (List UInt8) × Bool :=
  if _h : isp.txsize ≤ isp.txcnt then (isp, fifo, true)
  else
    let n := min (isp.txsize - isp.txcnt) EP1_MAXSIZE
    if dtxfsts fifo < n then (isp, fifo, false)
    else fillFifo mem { isp with txbuf := isp.txbuf + n, txcnt := isp.txcnt + n }
      (fifo ++ [slice mem isp.txbuf n])
termination_by isp.txsize - isp.txcnt
decreasing_by simp only [EP1_MAXSIZE]; omega

def otg_txfifo_handler (s : SerialUSB) : SerialUSB :=
  let filled := fillFifo s.obqueue.mem s.usbp.inState s.otg.ie.fifo
  { s with
    usbp := { s.usbp with inState := filled.1 }
    otg := { s.otg with
      diepempmsk := s.otg.diepempmsk && !filled.2.2
      ie := { s.otg.ie with fifo := filled.2.1 } } }

/-- `otg_epin_handler` on a completed transfer. -/
def otg_epin_handler (s : SerialUSB) : Option SerialUSB :=
  let isp := s.usbp.inState
  let s := { s with otg := { s.otg with ie := { s.otg.ie with xfrc := false } } }
  if isp.txsize < isp.totsize then
    some (usb_lld_start_in { s with usbp := { s.usbp with
      inState := { isp with txsize := isp.totsize - isp.txsize, txcnt := 0 } } })
  else sduDataTransmitted { s with usbp := { s.usbp with transmitting := false } }

/-- `otg_epout_handler` on a completed transfer. -/
def otg_epout_handler (s : SerialUSB) : Option SerialUSB :=
  sduDataReceived { s with
    usbp := { s.usbp with receiving := false }
    otg := { s.otg with oe := { s.otg.oe with xfrc := false } } }

/-- `otg_rxfifo_handler` on the data of a packet: what does not fit is dropped. -/
def otg_rxfifo_handler (s : SerialUSB) (packet : List UInt8) : SerialUSB :=
  let osp := s.usbp.outState
  { s with
    ibqueue := { s.ibqueue with
      mem := splice s.ibqueue.mem osp.rxbuf (packet.take (osp.rxsize - osp.rxcnt)) }
    usbp := { s.usbp with outState := { osp with
      rxbuf := osp.rxbuf + packet.length
      rxcnt := osp.rxcnt + packet.length } } }

/-! ### Bus events -/

/-- `usb_event` on `USB_EVENT_RESET`, `USB_EVENT_UNCONFIGURED` and `USB_EVENT_SUSPEND`. -/
def usb_event_disconnected (s : SerialUSB) : SerialUSB := s.sduSuspendHookI

/-- `usbInitEndpointI` for endpoint 1. -/
def usbInitEndpointI (s : SerialUSB) : Option SerialUSB :=
  if s.usbp.state = .USB_ACTIVE ∧ s.usbp.epc = false then
    some (usb_lld_init_endpoint { s with usbp := { s.usbp with
      epc := true
      inState := ⟨0, 0, 0, 0⟩
      outState := ⟨0, 0, 0, 0⟩ } })
  else none

/-- `usb_event` on `USB_EVENT_CONFIGURED`, where a session starts. -/
def usb_event_configured (s : SerialUSB) : Option SerialUSB := do
  let s ← usbInitEndpointI { s with session := .start }
  s.sduConfigureHookI

def _usb_reset (s : SerialUSB) : SerialUSB :=
  usb_event_disconnected (usb_lld_reset { s with usbp := { s.usbp with
    state := .USB_READY
    configuration := 0
    transmitting := false
    receiving := false
    epc := false } })

/-- The suspend branch of `usb_lld_serve_interrupt`, with `_usb_suspend`. -/
def _usb_suspend (s : SerialUSB) : SerialUSB :=
  let s := s.otg_disable_ep
  let s := usb_event_disconnected { s with usbp := { s.usbp with
    savedState := s.usbp.state
    state := .USB_SUSPENDED } }
  { s with usbp := { s.usbp with transmitting := false, receiving := false } }

def _usb_wakeup (s : SerialUSB) : SerialUSB :=
  sduWakeupHookI { s with usbp := { s.usbp with state := s.usbp.savedState } }

/-- `usbDisableEndpointsI` -/
def usbDisableEndpointsI (s : SerialUSB) : Option SerialUSB :=
  if s.usbp.state = .USB_ACTIVE then
    some (otg_disable_ep { s with usbp := { s.usbp with
      transmitting := false
      receiving := false
      epc := false } })
  else none

/-- `SET_CONFIGURATION` in `default_handler`. -/
def setConfiguration (s : SerialUSB) (value : UInt8) : Option SerialUSB := do
  let s ← if s.usbp.state = .USB_ACTIVE then
      s.usbDisableEndpointsI.map fun s => usb_event_disconnected { s with usbp := { s.usbp with
        configuration := 0
        state := .USB_SELECTED } }
    else some s
  if value ≠ 0 then
    usb_event_configured { s with usbp := { s.usbp with configuration := value, state := .USB_ACTIVE } }
  else some s

/-! ### The thread -/

/-- What a pass of `ibqReadTimeout` does to the driver. -/
def readPass (s : SerialUSB) (call : ReadCall) : Option SerialUSB := do
  match ← s.ibqueue.ibqReadPass call.left with
  | .moved bytes notify q =>
    let s := { s with
      ibqueue := q
      session := s.session.read bytes
      reader := if call.left ≤ bytes.length then none
        else some ⟨call.left - bytes.length, call.bytes ++ bytes⟩ }
    if notify then s.ibnotify else some s
  | .reset q => some { s with ibqueue := q, reader := none }
  | .wait q => some { s with ibqueue := q }

/-- What a pass of `obqWriteTimeout` does to the driver. -/
def writePass (s : SerialUSB) (bytes : List UInt8) : Option SerialUSB := do
  match ← s.obqueue.obqWritePass bytes with
  | .moved moved notify q =>
    let s := { s with
      obqueue := q
      session := s.session.wrote moved
      writer := if bytes.length ≤ moved.length then none else some (bytes.drop moved.length) }
    if notify then s.obnotify else some s
  | .reset q => some { s with obqueue := q, writer := none }
  | .wait q => some { s with obqueue := q }

end SerialUSB

/-- What happens next: a packet from the host, the host taking one, an interrupt, a
bus event, or the thread calling the stream or running inside a call. -/
inductive USBAct where
  | outPacket (packet : List UInt8)
  | outComplete
  | fifoEmpty
  | inPacket
  | inComplete
  | sof
  | reset
  | suspend
  | wakeup
  | setAddress
  | setConfiguration (value : UInt8)
  | read (n : ℕ)
  | readPass
  | write (bytes : List UInt8)
  | writePass
  deriving DecidableEq, Repr

namespace SerialUSB

/-- When it can happen: packets are moved while the endpoint is enabled, completed
transfers are served while the endpoint's interrupts are, a suspended bus is silent
but for the end of the suspension or a reset, and each direction serves one call. -/
def enabled (s : SerialUSB) : USBAct → Bool
  | .outPacket packet => s.otg.oe.epena && decide (packet.length ≤ EP1_MAXSIZE)
  | .outComplete => s.otg.daintmsk && s.otg.oe.xfrc
  | .fifoEmpty => s.otg.daintmsk && s.otg.diepempmsk
  | .inPacket => s.otg.ie.epena && (!s.otg.ie.fifo.isEmpty || s.otg.ie.xfrsiz == 0)
  | .inComplete => s.otg.daintmsk && s.otg.ie.xfrc
  | .sof => true
  | .reset => true
  | .suspend => s.usbp.state != .USB_SUSPENDED
  | .wakeup => s.usbp.state == .USB_SUSPENDED
  | .setAddress => s.usbp.state == .USB_READY
  | .setConfiguration _ => s.usbp.state != .USB_SUSPENDED
  | .read n => s.reader.isNone && decide (0 < n)
  | .readPass => s.reader.isSome
  | .write bytes => s.writer.isNone && !bytes.isEmpty
  | .writePass => s.writer.isSome

/-- The peripheral takes a packet of the host: it is in memory when the flag of a
completed transfer rises. -/
def acceptPacket (s : SerialUSB) (packet : List UInt8) : SerialUSB :=
  let s := s.otg_rxfifo_handler packet
  let oe := s.otg.oe
  let last := decide (packet.length < EP1_MAXSIZE) || oe.pktcnt - 1 == 0
  { s with
    otg := { s.otg with oe := {
      epena := oe.epena && !last
      pktcnt := oe.pktcnt - 1
      xfrc := oe.xfrc || last } }
    session := { s.session with sent := s.session.sent ++ [packet] } }

/-- The host takes the next packet, an empty one where the transfer has none. -/
def sendPacket (s : SerialUSB) : SerialUSB :=
  let ie := s.otg.ie
  let packet := ie.fifo.headD []
  { s with
    otg := { s.otg with ie := {
      epena := ie.epena && ie.pktcnt - 1 != 0
      pktcnt := ie.pktcnt - 1
      xfrsiz := ie.xfrsiz - packet.length
      xfrc := ie.xfrc || ie.pktcnt - 1 == 0
      fifo := ie.fifo.tail } }
    session := { s.session with received := s.session.received ++ [packet] } }

/-- One step; `none` is a halted system. -/
def act (s : SerialUSB) : USBAct → Option SerialUSB
  | .outPacket packet => some (s.acceptPacket packet)
  | .outComplete => s.otg_epout_handler
  | .fifoEmpty => some s.otg_txfifo_handler
  | .inPacket => some s.sendPacket
  | .inComplete => s.otg_epin_handler
  | .sof => s.sduSOFHookI
  | .reset => some s._usb_reset
  | .suspend => some s._usb_suspend
  | .wakeup => some s._usb_wakeup
  | .setAddress => some { s with usbp := { s.usbp with state := .USB_SELECTED } }
  | .setConfiguration value => s.setConfiguration value
  | .read n => some { s with
      reader := some ⟨n, []⟩
      session := { s.session with reads := s.session.reads ++ [(n, [])] } }
  | .readPass => s.reader.elim (some s) s.readPass
  | .write bytes => some { s with
      writer := some bytes
      session := { s.session with writes := s.session.writes ++ [(bytes, [])] } }
  | .writePass => s.writer.elim (some s) s.writePass

end SerialUSB

/-- `USBSerial::isActive` -/
def SerialUSB.isActive (s : SerialUSB) : Bool :=
  s.usbp.state == .USB_ACTIVE && !s.ibqueue.ibqIsEmptyI

def USBStep (s : SerialUSB) (a : USBAct) (s' : SerialUSB) : Prop :=
  s.enabled a = true ∧ s.act a = some s'

/-- The driver as `USBSerial::begin` leaves it, by `sduObjectInit`, `sduStart` and
`usbStart`. -/
def SerialUSB.begin : SerialUSB where
  state := .SDU_READY
  ibqueue := .ibqObjectInit true SERIAL_USB_BUFFERS_SIZE SERIAL_USB_BUFFERS_NUMBER
  obqueue := .obqObjectInit true SERIAL_USB_BUFFERS_SIZE SERIAL_USB_BUFFERS_NUMBER
  usbp := ⟨.USB_READY, .USB_READY, 0, false, false, false, ⟨0, 0, 0, 0⟩, ⟨0, 0, 0, 0⟩⟩
  otg := ⟨false, false, ⟨false, 0, 0, false, []⟩, ⟨false, 0, false⟩⟩
  reader := none
  writer := none
  session := .start

abbrev USBRun := Run USBStep SerialUSB.begin

/-- A step as a function; `none` also where the action cannot happen. -/
def SerialUSB.step (s : SerialUSB) (a : USBAct) : Option SerialUSB :=
  if s.enabled a then s.act a else none

theorem SerialUSB.step_eq_some {s s' : SerialUSB} {a : USBAct} (h : s.step a = some s') :
    USBStep s a s' := by
  rw [step] at h
  split at h
  · exact ⟨by assumption, h⟩
  · cases h

end Stmdsp
