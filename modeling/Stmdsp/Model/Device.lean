import Stmdsp.Lib.Proc
import Stmdsp.Model.Mailbox
import Stmdsp.Model.SampleBuffer

/-! The device state the firmware's threads and interrupts share: run status,
error store, sample buffers, sampling clock, converter drivers, algorithm memory,
mailbox, and the USB stream to and from the host. -/

namespace Stmdsp

/-- `runstatus.hpp` -/
inductive RunStatus where
  | Idle
  | Running
  | Recovering
  deriving DecidableEq, Repr

/-- `Idle = '1'`, the others count up. -/
def RunStatus.code : RunStatus → UInt8
  | .Idle => 0x31
  | .Running => 0x32
  | .Recovering => 0x33

/-- `error.hpp` -/
inductive Error where
  | None
  | BadParam
  | BadParamSize
  | BadUserCodeLoad
  | BadUserCodeSize
  | NotIdle
  | ConversionAborted
  | NotRunning
  deriving DecidableEq, Repr

def Error.code : Error → UInt8
  | .None => 0
  | .BadParam => 1
  | .BadParamSize => 2
  | .BadUserCodeLoad => 3
  | .BadUserCodeSize => 4
  | .NotIdle => 5
  | .ConversionAborted => 6
  | .NotRunning => 7

def MAX_ERROR_QUEUE_SIZE : ℕ := 8

/-- The entries of `m_queue` below `m_index`. -/
structure ErrorManager where
  mQueue : List Error
  bound : mQueue.length ≤ MAX_ERROR_QUEUE_SIZE

namespace ErrorManager

def add (em : ErrorManager) (error : Error) : ErrorManager :=
  if h : em.mQueue.length < MAX_ERROR_QUEUE_SIZE then
    ⟨em.mQueue ++ [error], by simp; omega⟩
  else em

def pop (em : ErrorManager) : Error × ErrorManager :=
  (em.mQueue.getLast?.getD .None, ⟨em.mQueue.dropLast, by have := em.bound; simp; omega⟩)

end ErrorManager

/-- The states of `ADCDriver` and `DACDriver`. -/
inductive DriverState where
  | STOP
  | READY
  | ACTIVE
  | COMPLETE
  | ERROR
  deriving DecidableEq, Repr

structure Driver where
  state : DriverState
  depth : ℕ
  deriving DecidableEq, Repr

-- The DAC's channels are the numerals of `Fin 2`, with this one proof behind all of them.
instance neZero_two : NeZero 2 := ⟨two_ne_zero⟩

/-- The two functions `ADC::m_operation` is ever set to. -/
inductive Operation where
  | adcReadHandler
  | adcReadHandlerMeasure
  deriving DecidableEq, Repr

/-- One row of the presets of `ADC::setRate`: PLLSAI2N, R, SMPR. -/
abbrev Preset := UInt32 × UInt32 × UInt32

/-- A mailbox message. Only `code` exists on the device; `event` is the number of
the ADC event that posted it, kept to tell messages apart. -/
structure Msg where
  code : ℕ
  event : ℕ
  deriving DecidableEq, Repr

structure SClockState where
  mDiv : UInt32
  mRuncount : UInt32
  /-- The interval TIM6 runs with, `none` while it is stopped (`GPT_READY`). -/
  timer : Option UInt32

structure ADCState where
  driver : Driver
  mCurrentBuffer : Option ℕ
  mCurrentBufferSize : ℕ
  mOperation : Option Operation
  preset : Preset
  /-- The DMA stream is in the second half: its next event completes the buffer. -/
  nextFull : Bool
  /-- Half-buffer events delivered so far. -/
  events : ℕ

/-- What the command thread did that its environment can observe, or that a
driver checks. -/
inductive Call where
  | command (c : UInt8)
  | read (n : ℕ)
  | write (bytes : List UInt8)
  | adcStart (state : DriverState) (depth : ℕ)
  | dacStart (channel : Fin 2) (state : DriverState) (depth : ℕ)
  /-- `SClock::stop` with the count it finds. -/
  | clockStop (runcount : UInt32)
  | rateLookup (index : ℕ)
  | presetLookup (index : ℕ)
  deriving DecidableEq, Repr

/-- What happened to the messages of the conversion pipeline. -/
inductive ConvEvent where
  | post (msg : Msg) (status : MsgStatus)
  /-- `chMBResetI` during the given ADC event, with the messages it discarded. -/
  | reset (event : ℕ) (lost : List Msg)
  | abort
  | received (msg : Msg)
  deriving DecidableEq, Repr

structure Device where
  runStatus : RunStatus
  em : ErrorManager
  In : SampleBuffer
  Out : SampleBuffer
  Generator : SampleBuffer
  sclock : SClockState
  adc : ADCState
  dac : Fin 2 → Driver
  dacIsDone : ℤ
  mMailbox : Mailbox Msg 2
  /-- `ELFManager::m_entry`, 0 being `nullptr`. -/
  mEntry : UInt32
  /-- The address of `ELFManager::m_file_buffer`. -/
  mFileBuffer : UInt32
  mem : UInt32 → UInt8
  /-- `conversion_time_measurement.last` and the kernel's calibration offset. -/
  tmLast : UInt32
  tmOffset : UInt32
  /-- What memory holds behind `SClock::m_rate_divs` and behind the presets of
  `ADC::setRate`. -/
  pastRateDivs : ℕ → UInt32
  pastPresets : ℕ → Preset
  /-- Bytes the host has sent and the firmware has not read. -/
  input : List UInt8
  trace : List Call
  conv : List ConvEvent

abbrev Fw := Proc Device

namespace Device

def logCall (c : Call) (d : Device) : Device := { d with trace := d.trace ++ [c] }

def logConv (e : ConvEvent) (d : Device) : Device := { d with conv := d.conv ++ [e] }

end Device

/-- `EM.assert(condition, error)` -/
def EM.assert (condition : Device → Bool) (error : Error) : Fw Bool :=
  Proc.act fun d =>
    if condition d then (true, d) else (false, { d with em := d.em.add error })

@[simp] theorem run_assert_bind {β : Type} (c : Device → Bool) (e : Error) (f : Bool → Fw β)
    (d : Device) :
    ((EM.assert c e).bind f).run d =
      if c d then (f true).run d else (f false).run { d with em := d.em.add e } := by
  by_cases h : c d = true <;> simp [EM.assert, h]

namespace USBSerial

/-- `streamRead`: takes up to `count` bytes off the stream. With the link up the
host's bytes are there; a stream that ends early is a link that was suspended.
`ibqReadTimeout` halts on a count of 0. -/
def read (count : ℕ) : Fw (List UInt8) :=
  Proc.guarded (Device.logCall (.read count)) (fun _ => 0 < count)
    fun d => (d.input.take count, { d with input := d.input.drop count })

/-- `streamWrite` of the bytes found in memory; `obqWriteTimeout` halts on none. -/
def write (bytes : Device → List UInt8) : Fw Unit :=
  Proc.guarded (fun d => d.logCall (.write (bytes d))) (fun d => !(bytes d).isEmpty)
    fun d => ((), d)

/-- `while (USBSerial::read(&unused, 1) == 0);` -/
def awaitAck : Fw Unit :=
  Proc.await (fun d => !d.input.isEmpty)
    fun d => ((), { d.logCall (.read 1) with input := d.input.drop 1 })

end USBSerial

/-- The device after a read of `n` bytes. -/
def Device.afterRead (n : ℕ) (d : Device) : Device :=
  { d.logCall (.read n) with input := d.input.drop n }

@[simp] theorem Device.afterRead_input (n : ℕ) (d : Device) :
    (d.afterRead n).input = d.input.drop n := rfl

@[simp] theorem run_read (n : ℕ) (d : Device) :
    (USBSerial.read n).run d =
      if 0 < n then .ok (d.input.take n) (d.afterRead n) else .halted (d.logCall (.read n)) := by
  by_cases h : 0 < n <;> simp [USBSerial.read, h, Device.afterRead, Device.logCall]

@[simp] theorem run_read_bind {β : Type} (n : ℕ) (f : List UInt8 → Fw β) (d : Device) :
    ((USBSerial.read n).bind f).run d =
      if 0 < n then (f (d.input.take n)).run (d.afterRead n) else .halted (d.logCall (.read n)) := by
  rw [Proc.run_bind, run_read]
  by_cases h : 0 < n <;> simp [h]

@[simp] theorem run_write (bytes : Device → List UInt8) (d : Device) :
    (USBSerial.write bytes).run d =
      if (bytes d).isEmpty then .halted (d.logCall (.write (bytes d)))
      else .ok () (d.logCall (.write (bytes d))) := by
  cases h : (bytes d).isEmpty <;> simp [USBSerial.write, h]

@[simp] theorem run_write_bind {β : Type} (bytes : Device → List UInt8) (f : Unit → Fw β)
    (d : Device) :
    ((USBSerial.write bytes).bind f).run d =
      if (bytes d).isEmpty then .halted (d.logCall (.write (bytes d)))
      else (f ()).run (d.logCall (.write (bytes d))) := by
  rw [Proc.run_bind, run_write]
  cases h : (bytes d).isEmpty <;> simp

end Stmdsp
