import Stmdsp.Model.Conversion

/-! `handlers.cpp` and the rest of `ConversionManager::abort`: system calls of the
runner, the fault handlers, and how an exception return is redirected. Exceptions
see the interrupted thread through its process stack pointer and program counter. -/

namespace Stmdsp

def CONVERSION_THREAD_STACK_SIZE : ℕ := 15 * 1024

/-- `abort`'s test that the stack pointer lies in `m_thread_runner_stack`. -/
def isRunnerStack (runnerStack psp : UInt32) : Bool :=
  decide (runnerStack.toNat ≤ psp.toNat) &&
    decide (psp.toNat ≤ runnerStack.toNat + CONVERSION_THREAD_STACK_SIZE)

/-- MPU region 3, `.convcode`: read-only for privileged code too. -/
def readOnly (a : UInt32) : Bool := decide (0x0807F800 ≤ a) && decide (a < 0x08080000)

/-- MPU regions 2 and 4: the memory an algorithm can run in, writable for all. -/
def executable (a : UInt32) : Bool :=
  (decide (0x20000000 ≤ a) && decide (a < 0x20020000)) ||
    (decide (0x10000000 ≤ a) && decide (a < 0x10008000))

/-- The addresses the linker and the thread creation fix, and the bus. -/
structure Layout where
  /-- `m_thread_runner_stack.data()` -/
  runnerStack : UInt32
  /-- The stack pointer of `threadRunner`'s own code. -/
  threadPsp : UInt32
  /-- An address of `threadRunner`'s own code. -/
  threadPc : UInt32
  /-- The stack pointer during a system call, in `m_thread_runner_entry_stack`. -/
  supervisorPsp : UInt32
  /-- Where the call in `HardFault_Handler` returns to. -/
  hardFaultReturn : UInt32
  /-- Where a privileged write faults. -/
  writeFaults : UInt32 → Bool
  thread_on_stack : isRunnerStack runnerStack threadPsp = true
  thread_in_flash : readOnly threadPc = true
  supervisor_apart : isRunnerStack runnerStack supervisorPsp = false
  writeFaults_readOnly : ∀ a, readOnly a = true → writeFaults a = true
  writeFaults_executable : ∀ a, executable a = true → writeFaults a = false

theorem readOnly_of_executable {a : UInt32} (h : executable a = true) : readOnly a = false := by
  simp only [executable, readOnly, Bool.or_eq_true, Bool.and_eq_true, decide_eq_true_eq,
    UInt32.le_iff_toNat_le, UInt32.lt_iff_toNat_lt, UInt32.reduceToNat, Bool.and_eq_false_iff,
    decide_eq_false_iff_not] at *
  omega

instance : Inhabited Layout where
  default :=
    { runnerStack := 0x20014000
      threadPsp := 0x20017B00
      threadPc := 0x0807F800
      supervisorPsp := 0x20001000
      hardFaultReturn := 0x08001001
      writeFaults := readOnly
      thread_on_stack := by decide
      thread_in_flash := by decide
      supervisor_apart := by decide
      writeFaults_readOnly := fun _ h => h
      writeFaults_executable := fun _ => readOnly_of_executable }

/-- What an exception finds of the interrupted thread. -/
structure Context where
  psp : UInt32
  pc : UInt32
  deriving DecidableEq, Repr

/-- Where the exception return goes after `abort`. -/
inductive Resume where
  /-- Back to the interrupted instruction. -/
  | untouched
  /-- Through the rebuilt frame at `newpsp` to a "bx lr", and with it to `threadRunner`. -/
  | restart (newpsp : UInt32)
  /-- Through the rebuilt frame to the interrupted instruction, where the algorithm
  cannot run and faults again. -/
  | again (newpsp : UInt32)
  /-- Nowhere: writing the "bx lr" has faulted inside the handler. -/
  | fault
  deriving DecidableEq, Repr

/-- "bx lr" -/
def bxLr : List UInt8 := [0x70, 0x47]

namespace ConversionManager

/-- `abort` from its test of the process stack pointer on; `none` is the context
of a thread other than the runner. -/
def resetRunner (k : Layout) (fpuStacked : Bool) (ctx : Option Context) (d : Device) :
    Device × Resume :=
  match ctx with
  | some ctx =>
    if isRunnerStack k.runnerStack ctx.psp then
      let newpsp := k.runnerStack + CONVERSION_THREAD_STACK_SIZE.toUInt32 -
        (if fpuStacked then 26 else 8) * 4
      if k.writeFaults ctx.pc then (d, .fault)
      else if executable ctx.pc then
        ({ d with mem := Memory.store d.mem ctx.pc bxLr }, .restart newpsp)
      else (d, .again newpsp)
    else (d, .untouched)
  | none => (d, .untouched)

end ConversionManager

/-! ### Fault handlers -/

/-- `lr` is the EXC_RETURN value: bit 2 tells the process stack, bit 4 clear a
stacked floating-point context. -/
def MemManage_Handler (k : Layout) (lr : UInt32) (ctx : Option Context) (d : Device) :
    Device × Resume :=
  ConversionManager.resetRunner k (lr &&& 0x10 == 0) ctx (ConversionManager.abort d)

/-- Ends in `while (1)` on every path: the call of `MemManage_Handler` returns to
the instruction after it. -/
def HardFault_Handler (k : Layout) (lr : UInt32) (ctx : Option Context) (d : Device) : Device :=
  if d.runStatus != .Running && lr &&& 4 != 0 then
    (MemManage_Handler k k.hardFaultReturn ctx d).1
  else d

/-! ### System calls -/

/-- `196 - 1` -/
def measurementOverhead : UInt32 := 195

/-- `chTMStartMeasurementX` at counter value `now`. -/
def startMeasurement (now : UInt32) (d : Device) : Device := { d with tmLast := now }

def stopMeasurement (now : UInt32) (d : Device) : Device :=
  let last := now - d.tmLast - d.tmOffset
  { d with tmLast := if last > measurementOverhead then last - measurementOverhead else last }

/-- `port_syscall` with a number other than 0; `none` for its endless loop. The
math functions of case 1 and the second ADC of case 3 touch no modelled state. -/
def port_syscall (n r0 now : UInt32) (d : Device) : Option Device :=
  if n = 1 ∨ n = 3 then some d
  else if n = 2 then some (if r0 = 0 then startMeasurement now d else stopMeasurement now d)
  else none

end Stmdsp
