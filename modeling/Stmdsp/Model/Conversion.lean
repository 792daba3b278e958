import Stmdsp.Model.Elfload
import Stmdsp.Model.Periph

/-! `conversion.cpp`, the parts that run in the command thread and in interrupts:
starting and stopping a conversion, the ADC event handlers, and the shared part
of `abort`. The runner and the monitor thread are in `Model.System`. -/

namespace Stmdsp

def MSG_CONVFIRST : ℕ := 1
def MSG_CONVSECOND : ℕ := 2
def MSG_CONVFIRST_MEASURE : ℕ := 3
def MSG_CONVSECOND_MEASURE : ℕ := 4

/-- `(msg & 1)` -/
def MSG_FOR_FIRST (msg : ℕ) : Bool := msg &&& 1 != 0

/-- `(msg > 2)` -/
def MSG_FOR_MEASURE (msg : ℕ) : Bool := decide (msg > 2)

namespace ConversionManager

def start : Fw Unit := do
  Proc.modify fun d => { d with Out := d.Out.clear }
  let count ← Proc.gets (·.In.mSize)
  ADC.start 0 count .adcReadHandler
  let count ← Proc.gets (·.Out.mSize)
  DAC.start 0 count

def startMeasurement : Fw Unit := Proc.modify (ADC.setOperation .adcReadHandlerMeasure)

def stop : Fw Unit := do
  DAC.stop 0
  ADC.stop

/-- `abort` up to its test of the process stack pointer. -/
def abort (d : Device) : Device :=
  let d := ELFManager.unload d
  { d.logConv .abort with em := d.em.add .ConversionAborted }

/-- `chMBPostI(&m_mailbox, code)` during the present ADC event. -/
def post (code : ℕ) (d : Device) : Device :=
  let msg : Msg := ⟨code, d.adc.events⟩
  let (status, mb) := d.mMailbox.chMBPostI msg
  { d.logConv (.post msg status) with mMailbox := mb }

/-- Marks the half of `In` that `buffer` points at and posts its message. -/
def postHalf (first second : ℕ) (buffer : Option ℕ) (d : Device) : Device :=
  if buffer = some d.In.data then
    post first { d with In := d.In.setModified }
  else
    post second { d with In := d.In.setMidmodified }

/-- The test `adcReadHandler` makes for an overrun. -/
def overrun (d : Device) : Bool := decide (d.mMailbox.chMBGetUsedCountI > 1)

/-- Returns whether it called `abort`. -/
def adcReadHandler (buffer : Option ℕ) (d : Device) : Device × Bool :=
  if overrun d then
    let d := d.logConv (.reset d.adc.events d.mMailbox.queue)
    let d := { d with mMailbox := d.mMailbox.chMBResetI }
    let d := { d with mMailbox := d.mMailbox.chMBResumeX }
    (abort d, true)
  else
    (postHalf MSG_CONVFIRST MSG_CONVSECOND buffer d, false)

def adcReadHandlerMeasure (buffer : Option ℕ) (d : Device) : Device × Bool :=
  let d := postHalf MSG_CONVFIRST_MEASURE MSG_CONVSECOND_MEASURE buffer d
  (ADC.setOperation .adcReadHandler d, false)

end ConversionManager

def Operation.call : Operation → Option ℕ → Device → Device × Bool
  | .adcReadHandler => ConversionManager.adcReadHandler
  | .adcReadHandlerMeasure => ConversionManager.adcReadHandlerMeasure

namespace ADC

def conversionCallback (d : Device) : Device × Bool :=
  match d.adc.mOperation with
  | none => (d, false)
  | some operation =>
    let halfSize := d.adc.mCurrentBufferSize / 2
    if d.adc.driver.state = .COMPLETE then
      operation.call (d.adc.mCurrentBuffer.map (· + halfSize)) d
    else
      operation.call d.adc.mCurrentBuffer d

/-- The DMA stream has transferred one half of the buffer. -/
def transfer (capture : Storage) (d : Device) : Device :=
  let depth := d.adc.driver.depth
  let first := if d.adc.nextFull then depth / 2 else 0
  let last := if d.adc.nextFull then depth else depth / 2
  { d with
    In := d.In.withStorage fun i => if first ≤ i ∧ i < last then capture i else d.In.mBuffer i
    adc := { d.adc with nextFull := !d.adc.nextFull, events := d.adc.events + 1 } }

def setState (s : DriverState) (d : Device) : Device :=
  { d with adc := { d.adc with driver := { d.adc.driver with state := s } } }

/-- `adc_lld_serve_dma_interrupt`: `_adc_isr_full_code` wraps the callback in
`ADC_COMPLETE`, `_adc_isr_half_code` calls it as it is. Returns whether `abort`
was called. -/
def serveDmaInterrupt (capture : Storage) (d : Device) : Device × Bool :=
  let full := d.adc.nextFull
  let d := transfer capture d
  if full then
    let (d, aborted) := conversionCallback (setState .COMPLETE d)
    (if d.adc.driver.state = .COMPLETE then setState .ACTIVE d else d, aborted)
  else
    conversionCallback d

end ADC

/-- `dacEndCallback` for a half-complete or a complete event of channel 1. -/
def dacEndCallback (full : Bool) (d : Device) : Device := { d with dacIsDone := if full then 1 else 0 }

end Stmdsp
