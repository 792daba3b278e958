import Stmdsp.Model.Threads
import Stmdsp.Model.VirtualTimers

/-! The threads with the timers that wake them. While one of the timers' functions is under
way, in a critical zone or in the interrupt of the alarm, only the counter goes on. -/

namespace Stmdsp

/-- In `chVTDoTickI`. -/
def VTPhase.serving : VTPhase → Bool
  | .tick => true
  | .rearm _ _ => true
  | _ => false

/-- In `chVTDoSetI`. -/
def VTPhase.setting : VTPhase → Bool
  | .start _ _ => true
  | .set _ _ => true
  | _ => false

/-- A step that no timer takes part in. -/
def OSAct.untimed : OSAct → Bool
  | .sleep => false
  | .timer _ => false
  | _ => true

structure TimedOS where
  os : OS
  vt : VirtualTimers Thread

inductive TimedAct where
  | os (a : OSAct)
  | count
  /-- `chThdSleep` of the running thread, up to the alarm if it is to be set: of the command
  thread for `TIME_US2I 100`, of the LED thread for `TIME_MS2I 500` or `TIME_MS2I 250`. -/
  | sleep (time : ℕ)
  | interrupt
  | tick
  | alarm

namespace TimedOS

/-- When it can happen. -/
def enabled (k : Layout) (t : TimedOS) : TimedAct → Bool
  | .os a => a.untimed && t.vt.phase == .out && t.os.enabled k a
  | .count => t.vt.enabled .count
  | .sleep time => t.os.enabled k .sleep && t.vt.enabled (.set time t.os.kernel.current)
  | .interrupt => !t.os.sys.dead && t.vt.enabled .interrupt
  | .tick => !t.os.sys.dead && t.vt.enabled .tick
  | .alarm => !t.os.sys.dead && t.vt.enabled .alarm

/-- `chSchGoSleepS` in `chSchGoSleepTimeoutS`, behind `chVTDoSetI`. -/
def goSleep (k : Layout) (t : TimedOS) : Option TimedOS :=
  (t.os.act k .sleep).map fun os => { t with os := os }

/-- The callback `wakeup` of each timer called. -/
def wakeups (kernel : Kernel Thread Msg) (called : List Thread) : Option (Kernel Thread Msg) :=
  called.foldlM (fun kernel tp => kernel.wakeup Thread.prio tp) kernel

/-- The end of the interrupt. -/
def endInterrupt (t : TimedOS) : Option TimedOS :=
  (t.os.kernel.chSchRescheduleS Thread.prio).map fun kernel =>
    { t with os := { t.os with kernel := kernel } }

/-- One step; `none` is a failed assertion. -/
def act (k : Layout) (t : TimedOS) : TimedAct → Option TimedOS
  | .os a => (t.os.act k a).map fun os => { t with os := os }
  | .count => some { t with vt := t.vt.count }
  | .sleep time => do
    let vt ← t.vt.chVTDoSetI time t.os.kernel.current
    if vt.phase = .out then goSleep k { t with vt := vt } else return { t with vt := vt }
  | .interrupt => some { t with vt := { t.vt with cc1if := false, phase := .tick } }
  | .tick => do
    let r ← t.vt.chVTDoTickI
    let kernel ← wakeups t.os.kernel r.1
    if r.2.phase = .out then endInterrupt { os := { t.os with kernel := kernel }, vt := r.2 }
    else return { os := { t.os with kernel := kernel }, vt := r.2 }
  | .alarm => do
    let vt ← t.vt.alarm
    if t.vt.phase.serving then endInterrupt { t with vt := vt } else goSleep k { t with vt := vt }

end TimedOS

/-- The device's part of a step. -/
def TimedAct.data : TimedAct → List SysAct
  | .os a => a.data
  | _ => []

def TimedStep (k : Layout) (t : TimedOS) (a : TimedAct) (t' : TimedOS) : Prop :=
  t.enabled k a = true ∧ t.act k a = some t'

def TimedOS.start (b : Board) : TimedOS := ⟨OS.start b, .init⟩

abbrev TimedRun (k : Layout) (b : Board) := Run (TimedStep k) (TimedOS.start b)

end Stmdsp
