import Stmdsp.Lib.DeltaList
import Stmdsp.Lib.Run

/-! Virtual timers (`chvt.c`): a delta list counted from `lasttime`, and the free-running
counter with its one alarm (`hal_st_lld.c`). The counter goes on between the reading of the
time and the setting of the alarm. Times and intervals are of 32 bits; a timer is its
parameter, and `none` is a failed check or the list's header taken for a timer. -/

namespace Stmdsp

def CH_CFG_ST_FREQUENCY : ℕ := 10000

/-- The least distance of an alarm. -/
def CH_CFG_ST_TIMEDELTA : ℕ := 2

/-- What `systime_t` and `sysinterval_t` count to. -/
def TIME_WRAP : ℕ := 4294967296

def TIME_MS2I (msecs : ℕ) : ℕ := (msecs * CH_CFG_ST_FREQUENCY + 999) / 1000

def TIME_US2I (usecs : ℕ) : ℕ := (usecs * CH_CFG_ST_FREQUENCY + 999999) / 1000000

def chTimeAddX (systime interval : ℕ) : ℕ := (systime + interval) % TIME_WRAP

def chTimeDiffX (start stop : ℕ) : ℕ := (stop + TIME_WRAP - start) % TIME_WRAP

/-- Where the processor is: in none of the functions, in `chVTDoTickI` before it reads the
time, or between a reading `now` of it and the setting of the alarm to `abstime`, in
`stStartAlarm` or `stSetAlarm` of `chVTDoSetI` or in `stSetAlarm` of `chVTDoTickI`. -/
inductive VTPhase where
  | out
  | tick
  | start (now abstime : ℕ)
  | set (now abstime : ℕ)
  | rearm (now abstime : ℕ)
  deriving DecidableEq, Repr

structure VirtualTimers (T : Type) where
  /-- The deltas and parameters, in the order of the list. -/
  timers : List (ℕ × T)
  lasttime : ℕ
  /-- `CNT`, `CCR[0]`, and the bits `CC1IF` of `SR` and `CC1IE` of `DIER`. -/
  cnt : ℕ
  ccr : ℕ
  cc1if : Bool
  cc1ie : Bool
  phase : VTPhase

namespace VirtualTimers

variable {T : Type}

/-- `_vt_init` and `st_lld_init` -/
def init : VirtualTimers T := ⟨[], 0, 0, 0, false, false, .out⟩

/-! ### The counter and its alarm -/

def count (v : VirtualTimers T) : VirtualTimers T :=
  let cnt := chTimeAddX v.cnt 1
  { v with cnt := cnt, cc1if := v.cc1if || cnt == v.ccr }

def stStartAlarm (v : VirtualTimers T) (abstime : ℕ) : Option (VirtualTimers T) :=
  if v.cc1ie then none else some { v with ccr := abstime, cc1if := false, cc1ie := true }

def stSetAlarm (v : VirtualTimers T) (abstime : ℕ) : Option (VirtualTimers T) :=
  if v.cc1ie then some { v with ccr := abstime } else none

/-- `CC1IF` with `CC1IE`. -/
def pending (v : VirtualTimers T) : Bool := v.cc1if && v.cc1ie

/-! ### The list -/

/-- The loop of `vt_list_compress`: what is left of the interval, and the list. -/
def compress : ℕ → List (ℕ × T) → ℕ × List (ℕ × T)
  | deltanow, [] => (deltanow, [])
  | deltanow, (delta, par) :: rest =>
    if delta < deltanow then
      ((compress (deltanow - delta) rest).1, (0, par) :: (compress (deltanow - delta) rest).2)
    else (deltanow, (delta - deltanow, par) :: rest)

def vt_list_compress (v : VirtualTimers T) (deltanow : ℕ) : VirtualTimers T :=
  let r := compress deltanow v.timers
  { v with lasttime := chTimeAddX v.lasttime r.1, timers := r.2 }

/-- `chVTDoSetI` but for the alarm. -/
def chVTDoSetI (v : VirtualTimers T) (delay : ℕ) (par : T) : Option (VirtualTimers T) :=
  if delay = 0 then none
  else
    let now := v.cnt
    let delay := if delay < CH_CFG_ST_TIMEDELTA then CH_CFG_ST_TIMEDELTA else delay
    match v.timers with
    | [] => some { v with
        lasttime := now
        timers := [(delay, par)]
        phase := .start now (chTimeAddX now delay) }
    | (first, _) :: _ =>
      let deltanow := chTimeDiffX v.lasttime now
      let delta := (deltanow + delay) % TIME_WRAP
      if delta < deltanow then
        let v := v.vt_list_compress deltanow
        some { v with timers := DeltaList.insert (delta + TIME_WRAP - deltanow) par v.timers }
      else some { v with
        timers := DeltaList.insert delta par v.timers
        phase := if delta < first then .set now (chTimeAddX v.lasttime delta) else .out }

/-- The inner loop of `chVTDoTickI`: the timers in the order of their calls, `lasttime`,
`nowdelta`, and the list. -/
def consume : ℕ → ℕ → List (ℕ × T) → Option (List T × ℕ × ℕ × List (ℕ × T))
  | lasttime, nowdelta, [] =>
    if nowdelta = TIME_WRAP - 1 then none else some ([], lasttime, nowdelta, [])
  | lasttime, nowdelta, (delta, par) :: rest =>
    if delta ≤ nowdelta then
      (consume (chTimeAddX lasttime delta) (nowdelta - delta) rest).map fun r => (par :: r.1, r.2)
    else some ([], lasttime, nowdelta, (delta, par) :: rest)

/-- The end of `chVTDoTickI`: with `now` read and no timer due, the next alarm. -/
def rearm (v : VirtualTimers T) (now nowdelta : ℕ) : VirtualTimers T :=
  match v.timers with
  | [] => { v with phase := .out }
  | (first, par) :: rest =>
    let lasttime := chTimeAddX v.lasttime nowdelta
    let first := first - nowdelta
    let delta := (first + TIME_WRAP - chTimeDiffX lasttime now) % TIME_WRAP
    let delta := if delta < CH_CFG_ST_TIMEDELTA then CH_CFG_ST_TIMEDELTA else delta
    { v with
      timers := (first, par) :: rest
      lasttime := lasttime
      phase := .rearm now (chTimeAddX now delta) }

/-- `chVTDoTickI` from a reading of the time to the next, or to its end. -/
def chVTDoTickI (v : VirtualTimers T) : Option (List T × VirtualTimers T) :=
  let nowdelta := chTimeDiffX v.lasttime v.cnt
  (consume v.lasttime nowdelta v.timers).map fun r =>
    if r.1.isEmpty then ([], v.rearm v.cnt nowdelta)
    else (r.1, { v with
      timers := r.2.2.2
      lasttime := r.2.1
      cc1ie := v.cc1ie && !r.2.2.2.isEmpty })

/-- The alarm is set, and in `chVTDoTickI` the time compared again. -/
def alarm (v : VirtualTimers T) : Option (VirtualTimers T) :=
  match v.phase with
  | .start _ abstime => { v with phase := .out }.stStartAlarm abstime
  | .set _ abstime => { v with phase := .out }.stSetAlarm abstime
  | .rearm _ abstime =>
    ({ v with phase := .out }.stSetAlarm abstime).filter fun v =>
      chTimeDiffX v.lasttime v.cnt ≤ chTimeDiffX v.lasttime abstime
  | _ => none

end VirtualTimers

/-! ### Runs -/

inductive VTAct (T : Type) where
  | count
  | set (delay : ℕ) (par : T)
  /-- `st_lld_serve_interrupt` up to `chVTDoTickI`. -/
  | interrupt
  | tick
  | alarm

namespace VirtualTimers

variable {T : Type}

/-- The longest delay, and the longest time from an alarm until its interrupt has called all
timers. -/
def LIMIT : ℕ := 1073741824

/-- The counter may go on: fewer than `CH_CFG_ST_TIMEDELTA` ticks pass from a reading of the
time to the setting of the alarm. -/
def mayCount (v : VirtualTimers T) : Bool :=
  match v.phase with
  | .out => !v.pending || decide (chTimeDiffX v.ccr v.cnt < LIMIT)
  | .tick => decide (chTimeDiffX v.ccr v.cnt < LIMIT)
  | .start now _ => decide (chTimeDiffX now v.cnt + 1 < CH_CFG_ST_TIMEDELTA)
  | .set now _ => decide (chTimeDiffX now v.cnt + 1 < CH_CFG_ST_TIMEDELTA)
  | .rearm now _ => decide (chTimeDiffX now v.cnt + 1 < CH_CFG_ST_TIMEDELTA)

/-- When it can happen. -/
def enabled (v : VirtualTimers T) : VTAct T → Bool
  | .count => v.mayCount
  | .set delay _ => v.phase == .out && decide (0 < delay ∧ delay ≤ LIMIT)
  | .interrupt => v.phase == .out && v.pending
  | .tick => v.phase == .tick
  | .alarm => v.phase != .out && v.phase != .tick

/-- One step, with the timers that it calls. -/
def act (v : VirtualTimers T) : VTAct T → Option (List T × VirtualTimers T)
  | .count => some ([], v.count)
  | .set delay par => (v.chVTDoSetI delay par).map fun v => ([], v)
  | .interrupt => some ([], { v with cc1if := false, phase := .tick })
  | .tick => v.chVTDoTickI
  | .alarm => v.alarm.map fun v => ([], v)

end VirtualTimers

def VTStep {T : Type} (v : VirtualTimers T) (a : VTAct T × List T) (v' : VirtualTimers T) :
    Prop :=
  v.enabled a.1 = true ∧ v.act a.1 = some (a.2, v')

abbrev VTRun {T : Type} := Run (VTStep (T := T)) VirtualTimers.init

end Stmdsp
