import Stmdsp.Model.CommandRun
import Stmdsp.Model.Exceptions

/-! The whole firmware as one transition system: the command thread, the monitor
thread and the algorithm runner with their individual steps, the ADC and DAC
interrupts, and the faults a user algorithm can raise. -/

namespace Stmdsp

/-- Where a pointer to samples can point. -/
inductive Ptr where
  | input (i : ℕ)
  | output (i : ℕ)
  | generator (i : ℕ)
  | memory (a : UInt32)
  deriving DecidableEq, Repr

/-- The sample at index `i` behind the pointer. -/
def Ptr.load (d : Device) (i : ℕ) : Ptr → Sample
  | input j => d.In.mBuffer (j + i)
  | output j => d.Out.mBuffer (j + i)
  | generator j => d.Generator.mBuffer (j + i)
  | memory a => Memory.read16 d.mem (a + (2 * i).toUInt32)

/-- The block behind the pointer while `Out` is being written. -/
def Ptr.source (p : Ptr) (d : Device) : Source :=
  fun out i => p.load { d with Out := d.Out.withStorage out } i

/-- What a user algorithm writes: samples and its own memory. -/
structure UserWrites where
  inMem : Storage
  outMem : Storage
  generatorMem : Storage
  mem : Memory

def UserWrites.apply (w : UserWrites) (d : Device) : Device :=
  { d with
    In := d.In.withStorage w.inMem
    Out := d.Out.withStorage w.outMem
    Generator := d.Generator.withStorage w.generatorMem
    mem := w.mem }

/-- The algorithm runner. All states but `waiting`, where it is blocked in `svc 0`,
have it ready to run. -/
inductive Runner where
  /-- At the head of `threadRunner`'s loop. -/
  | top
  | waiting
  | received (msg : Msg)
  /-- In the `svc 2` before a measured invocation. -/
  | starting (msg : Msg) (size : ℕ)
  /-- Inside the algorithm. -/
  | user (msg : Msg) (size : ℕ) (ctx : Context)
  /-- In a system call the algorithm made. -/
  | syscall (msg : Msg) (size : ℕ) (ctx : Context) (n r0 : UInt32)
  /-- In the `svc 2` after a measured invocation. -/
  | stopping (msg : Msg) (size : ℕ) (samples : Option Ptr)
  /-- Back in `threadRunner` with the block to store, `none` if it cannot be read. -/
  | returned (msg : Msg) (size : ℕ) (samples : Option Ptr)
  /-- Inside `modify` or `midmodify`, before the block at word `w`. -/
  | copying (msg : Msg) (samples : Ptr) (base srcend w : ℕ)
  deriving DecidableEq, Repr

namespace Runner

/-- The message being processed. -/
def message : Runner → Option Msg
  | top => none
  | waiting => none
  | received msg => some msg
  | starting msg _ => some msg
  | user msg _ _ => some msg
  | syscall msg _ _ _ _ => some msg
  | stopping msg _ _ => some msg
  | returned msg _ _ => some msg
  | copying msg _ _ _ _ => some msg

/-- What an exception finds: the algorithm's own context, the supervisor stack in
system calls, and the runner's flash code otherwise. -/
def context (k : Layout) : Runner → Option Context
  | waiting => none
  | user _ _ ctx => some ctx
  | starting _ _ => some ⟨k.supervisorPsp, 0⟩
  | syscall _ _ _ _ _ => some ⟨k.supervisorPsp, 0⟩
  | stopping _ _ _ => some ⟨k.supervisorPsp, 0⟩
  | _ => some ⟨k.threadPsp, k.threadPc⟩

/-- With the algorithm's stack pointer moved. -/
def moveStack (newpsp : UInt32) : Runner → Runner
  | user msg size ctx => user msg size { ctx with psp := newpsp }
  | r => r

end Runner

inductive Monitor where
  /-- In `chMBFetchTimeout`. -/
  | fetching
  /-- In `chMsgSend` until the runner takes the message. -/
  | sending (msg : Msg)
  deriving DecidableEq, Repr

def Monitor.held : Monitor → List Msg
  | fetching => []
  | sending msg => [msg]

/-- The command thread: between commands, or with a handler in progress. -/
inductive Comm where
  | idle
  | running (c : UInt8) (rest : Fw Unit)

structure Sys where
  dev : Device
  comm : Comm
  monitor : Monitor
  runner : Runner
  /-- Halted by a failed assertion or stuck in a fault handler. -/
  dead : Bool

inductive RunnerAct where
  | wait
  | receive
  | call (ctx : Context)
  | startTimer (now : UInt32) (ctx : Context)
  | compute (ctx : Context) (w : UserWrites)
  | svc (n r0 : UInt32)
  | svcReturn (now : UInt32)
  | ret (samples : Option Ptr)
  | stopTimer (now : UInt32)
  | store
  | copy

inductive SysAct where
  | host (bytes : List UInt8)
  | comm
  | monitor
  | runner (a : RunnerAct)
  | adc (capture : Storage)
  | dac (full : Bool)
  /-- A memory-management fault of the running runner, with the EXC_RETURN value. -/
  | memFault (lr : UInt32)
  | hardFault (lr : UInt32)

namespace Sys

def commStep (s : Sys) : Option Sys :=
  match s.comm with
  | .idle =>
    match s.dev.input with
    | [] => none
    | c :: rest => some { s with dev := received s.dev c rest, comm := .running c (dispatch c) }
  | .running _ (.done _) => some { s with comm := .idle }
  | .running _ .halt => some { s with dead := true }
  | .running c (.step g u next) =>
    if g s.dev then some { s with dev := u s.dev, comm := .running c (next s.dev) } else none

/-- The loop of `threadMonitor`. `chMsgSend` ends in the runner's `receive`. -/
def monitorStep (s : Sys) : Option Sys :=
  match s.monitor with
  | .sending _ => none
  | .fetching =>
    match s.dev.mMailbox.chMBFetchTimeoutS with
    | .message msg mb => some { s with
        dev := { s.dev with mMailbox := mb }
        monitor := .sending msg }
    | .reset => some s
    | .wait => none

/-- The first block of `threadRunner`: which half, how many samples, and whether
there is an algorithm to call. -/
def beginMessage (k : Layout) (s : Sys) (msg : Msg) (ctx : Context) : Option Sys :=
  let samples := if MSG_FOR_FIRST msg.code then s.dev.In.data else s.dev.In.middata
  let size := s.dev.In.mSize / 2
  if s.dev.mEntry ≠ 0 then
    if MSG_FOR_MEASURE msg.code then some { s with runner := .starting msg size }
    else if isRunnerStack k.runnerStack ctx.psp then some { s with runner := .user msg size ctx }
    else none
  else some { s with runner := .returned msg size (some (.input samples)) }

/-- `modify` or `midmodify` up to its loop. -/
def beginStore (s : Sys) (msg : Msg) (size : ℕ) (samples : Ptr) : Sys :=
  let out := s.dev.Out
  if MSG_FOR_FIRST msg.code then
    { s with
      dev := { s.dev with Out := out.setModified }
      runner := .copying msg samples out.data (out.modifySize size / 2) 0 }
  else
    { s with
      dev := { s.dev with Out := out.setMidmodified }
      runner := .copying msg samples out.middata (out.midmodifySize size / 2) 0 }

def copyBlock (s : Sys) (msg : Msg) (samples : Ptr) (base srcend w : ℕ) : Sys :=
  let out := copyWords (samples.source s.dev) base w s.dev.Out.mBuffer
  { s with
    dev := { s.dev with Out := s.dev.Out.withStorage out }
    runner := if w + 8 < srcend then .copying msg samples base srcend (w + 8) else .top }

/-- One step of `threadRunner` and of the algorithm it calls. The algorithm may
write samples and its memory, move its stack pointer, make any system call but
`svc 0`, and return any pointer. -/
def runnerStep (k : Layout) (s : Sys) (a : RunnerAct) : Option Sys :=
  match s.runner, a with
  | .top, .wait => some { s with runner := .waiting }
  | .waiting, .receive =>
    match s.monitor with
    | .sending msg => some { s with
        dev := s.dev.logConv (.received msg)
        monitor := .fetching
        runner := .received msg }
    | .fetching => none
  | .received msg, .call ctx => beginMessage k s msg ctx
  | .starting msg size, .startTimer now ctx =>
    if isRunnerStack k.runnerStack ctx.psp then
      some { s with dev := Stmdsp.startMeasurement now s.dev, runner := .user msg size ctx }
    else none
  | .user msg size _, .compute ctx w =>
    some { s with dev := w.apply s.dev, runner := .user msg size ctx }
  | .user msg size ctx, .svc n r0 =>
    if n = 0 then none else some { s with runner := .syscall msg size ctx n r0 }
  | .user msg size _, .ret samples =>
    some { s with runner :=
      if MSG_FOR_MEASURE msg.code then .stopping msg size samples
      else .returned msg size samples }
  | .syscall msg size ctx n r0, .svcReturn now =>
    match port_syscall n r0 now s.dev with
    | some d => some { s with dev := d, runner := .user msg size ctx }
    | none => none
  | .stopping msg size samples, .stopTimer now =>
    some { s with
      dev := Stmdsp.stopMeasurement now s.dev
      runner := .returned msg size samples }
  | .returned msg size (some samples), .store => some (s.beginStore msg size samples)
  | .copying msg samples base srcend w, .copy => some (s.copyBlock msg samples base srcend w)
  | _, _ => none

/-- The exception returns, if it does. -/
def resume (s : Sys) (d : Device) : Resume → Sys
  | .untouched => { s with dev := d }
  | .restart _ => { s with dev := d, runner := .top }
  | .again newpsp => { s with dev := d, runner := s.runner.moveStack newpsp }
  | .fault => { s with dev := d, dead := true }

/-- The ADC interrupt; its handler calls `abort()` with the default argument. -/
def adcStep (k : Layout) (s : Sys) (capture : Storage) : Option Sys :=
  if s.dev.adc.driver.state = .ACTIVE then
    match ADC.serveDmaInterrupt capture s.dev with
    | (d, true) =>
      let (d, r) := ConversionManager.resetRunner k true (s.runner.context k) d
      some (s.resume d r)
    | (d, false) => some { s with dev := d }
  else none

/-- A fault is raised by the thread that runs, here the runner. -/
def faultStep (k : Layout) (s : Sys) (lr : UInt32) : Option Sys :=
  match s.runner.context k with
  | none => none
  | some ctx =>
    let (d, r) := MemManage_Handler k lr (some ctx) s.dev
    some (s.resume d r)

/-- One step, by its kind. -/
def act (k : Layout) (s : Sys) : SysAct → Option Sys
  | .host bytes => some { s with dev := { s.dev with input := s.dev.input ++ bytes } }
  | .comm => s.commStep
  | .monitor => s.monitorStep
  | .runner a => s.runnerStep k a
  | .adc capture => s.adcStep k capture
  | .dac full =>
    if DAC.isSigGenRunning s.dev then some { s with dev := dacEndCallback full s.dev } else none
  | .memFault lr => s.faultStep k lr
  | .hardFault lr => some { s with
      dev := HardFault_Handler k lr (s.runner.context k) s.dev
      dead := true }

end Sys

def sysStep (k : Layout) (s : Sys) (a : SysAct) : Option Sys :=
  if s.dead then none else s.act k a

/-- Runner before monitor before command thread: a thread steps only while those
above it are blocked. Interrupts and faults come at any time. -/
def allowed (s : Sys) : SysAct → Bool
  | .comm => s.runner == .waiting && s.monitor == .fetching && s.dev.mMailbox.queue.isEmpty
  | .monitor => s.runner == .waiting
  | _ => true

/-- A step that a guard lets through. -/
def GuardedStep (ok : Sys → SysAct → Bool) (k : Layout) (s : Sys) (a : SysAct) (s' : Sys) : Prop :=
  ok s a = true ∧ sysStep k s a = some s'

/-- Interleavings under the priorities of the threads. -/
def PrioStep (k : Layout) (s : Sys) (a : SysAct) (s' : Sys) : Prop := GuardedStep allowed k s a s'

/-- The threads just created. -/
def boot (b : Board) : Sys := ⟨powerUp b, .idle, .fetching, .top, false⟩

abbrev SysRun (k : Layout) (b : Board) := Run (PrioStep k) (boot b)

/-- Executes a schedule; `none` where a step is not enabled or not let through. -/
def execGuarded (ok : Sys → SysAct → Bool) (k : Layout) (s : Sys) : List SysAct → Option Sys
  | [] => some s
  | a :: acts =>
    if ok s a then
      match sysStep k s a with
      | some s' => execGuarded ok k s' acts
      | none => none
    else none

abbrev execSys (k : Layout) := execGuarded allowed k

theorem run_of_exec {ok : Sys → SysAct → Bool} {k : Layout} {s s' : Sys} {acts : List SysAct}
    (h : execGuarded ok k s acts = some s') :
    ∃ tr, Run (GuardedStep ok k) s tr s' ∧ tr.map Prod.snd = acts := by
  induction acts generalizing s with
  | nil =>
    obtain rfl := Option.some.inj h
    exact ⟨[], .nil, rfl⟩
  | cons a acts ih =>
    simp only [execGuarded] at h
    split at h
    · rename_i ha
      split at h
      · rename_i t hs
        obtain ⟨tr, hr, hacts⟩ := ih h
        exact ⟨_, (Run.single ⟨ha, hs⟩).append hr, by simp [hacts]⟩
      · simp at h
    · simp at h

/-- A schedule that executes from power-up is a run. -/
theorem exists_run_of_exec (k : Layout) (b : Board) (acts : List SysAct) (p : Sys → Bool)
    (h : (execSys k (boot b) acts).any p = true) :
    ∃ tr s, SysRun k b tr s ∧ tr.map Prod.snd = acts ∧ p s = true := by
  obtain ⟨s, hs, hp⟩ := (Option.any_eq_true _ _).mp h
  obtain ⟨tr, hr, hacts⟩ := run_of_exec hs
  exact ⟨tr, s, hr, hacts, hp⟩

end Stmdsp
