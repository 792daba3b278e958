import Stmdsp.Lib.PrioQueue
import Stmdsp.Lib.RingBuffer
import Stmdsp.Model.Mailbox

/-! The parts of the ChibiOS kernel the firmware's threads run on: the scheduler
(`chschd.c`) without time quantum, threads queues (`chthreads.h`), synchronous messages
(`chmsg.c`), and mailboxes (`chmboxes.c`) as the ring they are. Threads and messages are
of any type, and `none` is a failed assertion or a pointer past a list. -/

namespace Stmdsp

/-- The thread states in use. -/
inductive TState where
  | CH_STATE_READY
  | CH_STATE_CURRENT
  | CH_STATE_WTSTART
  | CH_STATE_QUEUED
  | CH_STATE_SLEEPING
  | CH_STATE_SNDMSGQ
  | CH_STATE_SNDMSG
  | CH_STATE_WTMSG
  | CH_STATE_FINAL
  deriving DecidableEq, Repr

/-- The union `u` of `thread_t`: one member is there at a time. -/
inductive ThreadUnion (M : Type) where
  | rdymsg (msg : MsgStatus)
  | sentmsg (msg : M)
  deriving DecidableEq, Repr

def NOPRIO : ℕ := 0

def IDLEPRIO : ℕ := 1

def LOWPRIO : ℕ := 2

def NORMALPRIO : ℕ := 128

def HIGHPRIO : ℕ := 255

/-- `ch.rlist` and the fields of all threads. -/
structure Kernel (T M : Type) where
  current : T
  ready : List T
  state : T → TState
  u : T → ThreadUnion M
  msgqueue : T → List T

namespace Kernel

variable {T M : Type} [DecidableEq T] (prio : T → ℕ)

def setState (k : Kernel T M) (tp : T) (st : TState) : Kernel T M :=
  { k with state := Function.update k.state tp st }

def setRdymsg (k : Kernel T M) (tp : T) (msg : MsgStatus) : Kernel T M :=
  { k with u := Function.update k.u tp (.rdymsg msg) }

/-! ### The scheduler -/

def firstprio (k : Kernel T M) : ℕ := (k.ready.head?.map prio).getD NOPRIO

/-- `chSchReadyI` and `chSchReadyAheadI`, which differ in the threads they pass. -/
def makeReady (k : Kernel T M) (past : T → Bool) (tp : T) : Option (Kernel T M) :=
  if k.state tp ≠ .CH_STATE_READY ∧ k.state tp ≠ .CH_STATE_FINAL then
    some { k.setState tp .CH_STATE_READY with ready := PrioQueue.insertPast past tp k.ready }
  else none

def chSchReadyI (k : Kernel T M) (tp : T) : Option (Kernel T M) :=
  k.makeReady (fun cp => decide (prio tp ≤ prio cp)) tp

def chSchReadyAheadI (k : Kernel T M) (tp : T) : Option (Kernel T M) :=
  k.makeReady (fun cp => decide (prio tp < prio cp)) tp

/-- The first thread of the ready list becomes the current one. -/
def pickFirst (k : Kernel T M) : Option (Kernel T M) :=
  match k.ready with
  | [] => none
  | tp :: rest => some { k.setState tp .CH_STATE_CURRENT with current := tp, ready := rest }

def chSchGoSleepS (k : Kernel T M) (newstate : TState) : Option (Kernel T M) :=
  (k.setState k.current newstate).pickFirst

def chSchWakeupS (k : Kernel T M) (ntp : T) (msg : MsgStatus) : Option (Kernel T M) :=
  if k.ready = [] ∨ k.firstprio prio ≤ prio k.current then
    let k := k.setRdymsg ntp msg
    if prio ntp ≤ prio k.current then k.chSchReadyI prio ntp
    else (k.chSchReadyAheadI prio k.current).map fun k =>
      { k.setState ntp .CH_STATE_CURRENT with current := ntp }
  else none

/-- `chSchDoRescheduleAhead`, and `chSchDoReschedule` without time quantum. -/
def chSchDoReschedule (k : Kernel T M) : Option (Kernel T M) :=
  k.pickFirst.bind fun k' => k'.chSchReadyAheadI prio k.current

/-- `chSchRescheduleS`, and the end of an interrupt: `chSchIsPreemptionRequired` makes the
same comparison. -/
def chSchRescheduleS (k : Kernel T M) : Option (Kernel T M) :=
  if prio k.current < k.firstprio prio then k.chSchDoReschedule prio else some k

/-! ### Threads and threads queues -/

/-- `chThdCreateStatic`, for a thread in the state `_thread_init` gives it. -/
def chThdCreateStatic (k : Kernel T M) (tp : T) : Option (Kernel T M) :=
  (k.setState tp .CH_STATE_WTSTART).chSchWakeupS prio tp .MSG_OK

/-- Nobody waits for a thread of the firmware to exit. -/
def chThdExit (k : Kernel T M) : Option (Kernel T M) := k.chSchGoSleepS .CH_STATE_FINAL

/-- `chThdEnqueueTimeoutS` with `TIME_INFINITE` up to the sleep, with the queue. -/
def chThdEnqueueS (k : Kernel T M) (tq : List T) : Option (List T × Kernel T M) :=
  (k.chSchGoSleepS .CH_STATE_QUEUED).map fun k' => (tq ++ [k.current], k')

def chThdDequeueNextI (k : Kernel T M) (tq : List T) (msg : MsgStatus) :
    Option (List T × Kernel T M) :=
  match tq with
  | [] => some ([], k)
  | tp :: rest =>
    if k.state tp = .CH_STATE_QUEUED then
      ((k.setRdymsg tp msg).chSchReadyI prio tp).map fun k => (rest, k)
    else none

def chThdDequeueAllI (k : Kernel T M) (msg : MsgStatus) : List T → Option (List T × Kernel T M)
  | [] => some ([], k)
  | tp :: rest => (k.chThdDequeueNextI prio (tp :: rest) msg).bind fun r =>
      r.2.chThdDequeueAllI msg rest

/-- `wakeup`, when the timer of a sleeping thread expires. -/
def wakeup (k : Kernel T M) (tp : T) : Option (Kernel T M) :=
  (k.setRdymsg tp .MSG_TIMEOUT).chSchReadyI prio tp

/-! ### Messages -/

/-- `chMsgSend` up to the sleep. -/
def chMsgSend (k : Kernel T M) (tp : T) (msg : M) : Option (Kernel T M) := do
  let k := { k with
    u := Function.update k.u k.current (.sentmsg msg)
    msgqueue := Function.update k.msgqueue tp (k.msgqueue tp ++ [k.current]) }
  let k ← if k.state tp = .CH_STATE_WTMSG then k.chSchReadyI prio tp else some k
  k.chSchGoSleepS .CH_STATE_SNDMSGQ

/-- `chMsgWaitS` up to the sleep, which it enters with no message pending. -/
def chMsgWaitS (k : Kernel T M) : Option (Kernel T M) :=
  if k.msgqueue k.current = [] then k.chSchGoSleepS .CH_STATE_WTMSG else some k

/-- The rest of `chMsgWaitS`: the first sender. -/
def chMsgTakeS (k : Kernel T M) : Option (T × Kernel T M) :=
  match k.msgqueue k.current with
  | [] => none
  | tp :: rest => some (tp, { k.setState tp .CH_STATE_SNDMSG with
      msgqueue := Function.update k.msgqueue k.current rest })

def chMsgGet (k : Kernel T M) (tp : T) : Option M :=
  if k.state tp = .CH_STATE_SNDMSG then
    match k.u tp with
    | .sentmsg msg => some msg
    | .rdymsg _ => none
  else none

def chMsgReleaseS (k : Kernel T M) (tp : T) (msg : MsgStatus) : Option (Kernel T M) :=
  k.chSchWakeupS prio tp msg

end Kernel

/-! ### Mailboxes -/

/-- `mailbox_t` over a buffer of `n` messages, with indices for its pointers. The firmware
posts from interrupts only, so that no writer waits. -/
structure MailboxRing (T M : Type) (n : ℕ) where
  buffer : ℕ → M
  wrptr : ℕ
  rdptr : ℕ
  cnt : ℕ
  reset : Bool
  qr : List T

namespace MailboxRing

variable {T M : Type} [DecidableEq T] {n : ℕ} (prio : T → ℕ)

def chMBGetUsedCountI (mb : MailboxRing T M n) : ℕ := mb.cnt

def chMBGetFreeCountI (mb : MailboxRing T M n) : ℕ := n - mb.chMBGetUsedCountI

/-- The message written and the pointer advanced. -/
def put (mb : MailboxRing T M n) (msg : M) : MailboxRing T M n :=
  { mb with
    buffer := Function.update mb.buffer mb.wrptr msg
    wrptr := RingBuffer.next n mb.wrptr
    cnt := mb.cnt + 1 }

def get (mb : MailboxRing T M n) : MailboxRing T M n :=
  { mb with rdptr := RingBuffer.next n mb.rdptr, cnt := mb.cnt - 1 }

def chMBPostI (mb : MailboxRing T M n) (k : Kernel T M) (msg : M) :
    Option (MsgStatus × MailboxRing T M n × Kernel T M) :=
  if mb.reset then some (.MSG_RESET, mb, k)
  else if 0 < mb.chMBGetFreeCountI then
    (k.chThdDequeueNextI prio mb.qr .MSG_OK).map fun r => (.MSG_OK, { mb.put msg with qr := r.1 }, r.2)
  else some (.MSG_TIMEOUT, mb, k)

def chMBResetI (mb : MailboxRing T M n) (k : Kernel T M) :
    Option (MailboxRing T M n × Kernel T M) :=
  (k.chThdDequeueAllI prio .MSG_RESET mb.qr).map fun r =>
    ({ mb with wrptr := 0, rdptr := 0, cnt := 0, reset := true, qr := r.1 }, r.2)

def chMBResumeX (mb : MailboxRing T M n) : MailboxRing T M n := { mb with reset := false }

/-- How a look of the current thread in `chMBFetchTimeoutS` with `TIME_INFINITE` ends:
with a status and perhaps a message, or asleep and to look again. -/
inductive Look (T M : Type) (n : ℕ) where
  | reset
  | message (msg : M) (mb : MailboxRing T M n) (k : Kernel T M)
  | asleep (mb : MailboxRing T M n) (k : Kernel T M)

def chMBFetchTimeoutS (mb : MailboxRing T M n) (k : Kernel T M) : Option (Look T M n) :=
  if mb.reset then some .reset
  else if 0 < mb.chMBGetUsedCountI then
    (k.chSchRescheduleS prio).map fun k => .message (mb.buffer mb.rdptr) mb.get k
  else (k.chThdEnqueueS mb.qr).map fun r => .asleep { mb with qr := r.1 } r.2

end MailboxRing

end Stmdsp
