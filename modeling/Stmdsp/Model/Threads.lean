import Stmdsp.Model.Kernel
import Stmdsp.Model.System

/-! The firmware's threads on the kernel that schedules them: `main` creates them and
exits, and from then on the kernel's own lists say who runs. What a thread or an interrupt
does to the device is a step of `Sys`; here it comes with the kernel calls it makes. -/

namespace Stmdsp

inductive Thread where
  | idle
  | main
  /-- `Monitor::threadMonitor`, of the LEDs and the button. -/
  | led
  | comm
  /-- `ConversionManager::threadMonitor` -/
  | monitor
  | runner
  deriving DecidableEq, Repr

def Thread.prio : Thread → ℕ
  | idle => IDLEPRIO
  | main => NORMALPRIO
  | led => LOWPRIO
  | comm => NORMALPRIO
  | monitor => NORMALPRIO + 1
  | runner => HIGHPRIO

structure OS where
  kernel : Kernel Thread Msg
  mMailbox : MailboxRing Thread Msg 2
  /-- The threads queues of the serial driver, which hold the command thread alone. -/
  usbWaiting : List Thread
  /-- The threads that `main` has still to create. -/
  toCreate : List Thread
  /-- What `threadMonitor` holds between `chMBFetchTimeout` and `chMsgSend`. -/
  fetched : Option Msg
  /-- What `svc 0` last returned to the runner. -/
  r0 : Option Msg
  sys : Sys

inductive OSAct where
  | create
  | exit
  /-- A step without a kernel call of its thread, or an interrupt. -/
  | sys (a : SysAct)
  /-- `chMBFetchTimeout` with a message there, and without. -/
  | fetch
  | await
  | send
  | wait
  | receive
  /-- `chThdSleep` of the running thread. -/
  | sleep
  /-- The command thread in a queue of the serial driver. -/
  | block
  | timer (tp : Thread)
  | usb (msg : MsgStatus)

namespace OS

/-- Who takes a step of the device: the thread that runs, or an interrupt at any time. -/
def may (o : OS) : SysAct → Bool
  | .comm => o.kernel.current == .comm
  | .monitor => false
  | .runner .wait => false
  | .runner .receive => false
  | .runner _ => o.kernel.current == .runner
  | .memFault _ => o.kernel.current == .runner
  | _ => true

/-- When it can happen. -/
def enabled (k : Layout) (o : OS) : OSAct → Bool
  | .create => !o.sys.dead && o.kernel.current == .main && !o.toCreate.isEmpty
  | .exit => !o.sys.dead && o.kernel.current == .main && o.toCreate.isEmpty
  | .sys a => o.may a && (sysStep k o.sys a).isSome
  | .fetch => !o.sys.dead && o.kernel.current == .monitor && o.fetched.isNone &&
      (o.mMailbox.reset || decide (0 < o.mMailbox.chMBGetUsedCountI))
  | .await => !o.sys.dead && o.kernel.current == .monitor && o.fetched.isNone &&
      !(o.mMailbox.reset || decide (0 < o.mMailbox.chMBGetUsedCountI))
  | .send => !o.sys.dead && o.kernel.current == .monitor && o.fetched.isSome
  | .wait => !o.sys.dead && o.kernel.current == .runner && o.sys.runner == .top
  | .receive => !o.sys.dead && o.kernel.current == .runner && o.sys.runner == .waiting
  | .sleep => !o.sys.dead && (o.kernel.current == .comm || o.kernel.current == .led)
  | .block => !o.sys.dead && o.kernel.current == .comm
  | .timer tp => !o.sys.dead && (tp == .comm || tp == .led) &&
      o.kernel.state tp == .CH_STATE_SLEEPING
  | .usb _ => !o.sys.dead && !o.usbWaiting.isEmpty

/-- The mailbox calls among what an ADC event has logged. -/
def mailboxCall (r : MailboxRing Thread Msg 2 × Kernel Thread Msg) :
    ConvEvent → Option (MailboxRing Thread Msg 2 × Kernel Thread Msg)
  | .post msg _ => (r.1.chMBPostI Thread.prio r.2 msg).map fun r => r.2
  | .reset _ _ => (r.1.chMBResetI Thread.prio r.2).map fun r => (r.1.chMBResumeX, r.2)
  | _ => some r

/-- An interrupt of the ADC: the mailbox calls of its handler, and the end of the interrupt. -/
def adcInterrupt (k : Layout) (o : OS) (capture : Storage) : Option OS := do
  let sys ← sysStep k o.sys (.adc capture)
  let r ← (sys.dev.conv.drop o.sys.dev.conv.length).foldlM mailboxCall (o.mMailbox, o.kernel)
  let kernel ← r.2.chSchRescheduleS Thread.prio
  return { o with mMailbox := r.1, kernel := kernel, sys := sys }

/-- `chMBFetchTimeout` in `threadMonitor`. -/
def fetch (k : Layout) (o : OS) : Option OS := do
  match ← o.mMailbox.chMBFetchTimeoutS Thread.prio o.kernel with
  | .reset =>
    let sys ← sysStep k o.sys .monitor
    return { o with sys := sys }
  | .message msg mb kernel =>
    let sys ← sysStep k o.sys .monitor
    return { o with mMailbox := mb, kernel := kernel, fetched := some msg, sys := sys }
  | .asleep mb kernel => return { o with mMailbox := mb, kernel := kernel }

/-- Case 0 of `port_syscall` behind the sleep in `chMsgWaitS`. -/
def receive (k : Layout) (o : OS) : Option OS := do
  let (_, kernel) ← o.kernel.chMsgTakeS
  let msg ← kernel.chMsgGet .monitor
  let kernel ← kernel.chMsgReleaseS Thread.prio .monitor .MSG_OK
  let sys ← sysStep k o.sys (.runner .receive)
  return { o with kernel := kernel, r0 := some msg, sys := sys }

/-- One step; `none` is a failed assertion of the kernel. -/
def act (k : Layout) (o : OS) : OSAct → Option OS
  | .create =>
    match o.toCreate with
    | [] => none
    | tp :: rest => (o.kernel.chThdCreateStatic Thread.prio tp).map fun kernel =>
        { o with kernel := kernel, toCreate := rest }
  | .exit => o.kernel.chThdExit.map fun kernel => { o with kernel := kernel }
  | .sys (.adc capture) => o.adcInterrupt k capture
  | .sys a => (sysStep k o.sys a).map fun sys => { o with sys := sys }
  | .fetch => o.fetch k
  | .await => o.fetch k
  | .send => do
    let msg ← o.fetched
    let kernel ← o.kernel.chMsgSend Thread.prio .runner msg
    return { o with kernel := kernel, fetched := none }
  | .wait => do
    let kernel ← o.kernel.chMsgWaitS
    let sys ← sysStep k o.sys (.runner .wait)
    return { o with kernel := kernel, sys := sys }
  | .receive => o.receive k
  | .sleep => (o.kernel.chSchGoSleepS .CH_STATE_SLEEPING).map fun kernel => { o with kernel := kernel }
  | .block => (o.kernel.chThdEnqueueS o.usbWaiting).map fun r =>
      { o with usbWaiting := r.1, kernel := r.2 }
  | .timer tp => do
    let kernel ← o.kernel.wakeup Thread.prio tp
    let kernel ← kernel.chSchRescheduleS Thread.prio
    return { o with kernel := kernel }
  | .usb msg => do
    let r ← o.kernel.chThdDequeueNextI Thread.prio o.usbWaiting msg
    let kernel ← r.2.chSchRescheduleS Thread.prio
    return { o with usbWaiting := r.1, kernel := kernel }

end OS

/-- The device's part of a step. -/
def OSAct.data : OSAct → List SysAct
  | .sys a => [a]
  | .fetch => [.monitor]
  | .wait => [.runner .wait]
  | .receive => [.runner .receive]
  | _ => []

def OSStep (k : Layout) (o : OS) (a : OSAct) (o' : OS) : Prop :=
  o.enabled k a = true ∧ o.act k a = some o'

/-- The caller is the current thread, and there is an idle thread. -/
def chSysInit : Kernel Thread Msg where
  current := .main
  ready := [.idle]
  state := fun tp =>
    if tp = .main then .CH_STATE_CURRENT
    else if tp = .idle then .CH_STATE_READY
    else .CH_STATE_WTSTART
  u := fun _ => .rdymsg .MSG_OK
  msgqueue := fun _ => []

/-- `main` behind the initialisation of the peripherals. -/
def OS.start (b : Board) : OS where
  kernel := chSysInit
  mMailbox := ⟨fun _ => ⟨0, 0⟩, 0, 0, 0, false, []⟩
  usbWaiting := []
  toCreate := [.monitor, .runner, .comm, .led]
  fetched := none
  r0 := none
  sys := boot b

abbrev OSRun (k : Layout) (b : Board) := Run (OSStep k) (OS.start b)

/-- A step as a function; `none` also where the action cannot happen. -/
def OS.step (k : Layout) (o : OS) (a : OSAct) : Option OS :=
  if o.enabled k a then o.act k a else none

theorem OS.step_eq_some {k : Layout} {o o' : OS} {a : OSAct} (h : o.step k a = some o') :
    OSStep k o a o' := by
  rw [step] at h
  split at h
  · exact ⟨by assumption, h⟩
  · cases h

end Stmdsp
