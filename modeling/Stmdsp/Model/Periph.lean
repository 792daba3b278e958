import Stmdsp.Model.Device

/-! The sampling clock (`sclock.cpp`) and the converters (`adc.cpp`, `dac.cpp`)
with the checks of the ChibiOS drivers below them. A failing check halts. -/

namespace Stmdsp

/-! ### Sampling clock -/

/-- `SClock::Rate::R32K` -/
def R32K : ℕ := 3

/-- `SClock::m_rate_divs` on the L4 target. -/
def rateDivs : List UInt32 := [4500, 2250, 1800, 1125, 750, 375]

/-- `gptStartContinuous` asserts a stopped timer. -/
def gptStartContinuous (interval : UInt32) : Fw Unit :=
  Proc.guarded id (fun d => d.sclock.timer.isNone)
    fun d => ((), { d with sclock := { d.sclock with timer := some interval } })

def gptStopTimer : Fw Unit :=
  Proc.modify fun d => { d with sclock := { d.sclock with timer := none } }

namespace SClock

/-- `m_runcount++`, with the count before it. -/
def increment : Fw UInt32 :=
  Proc.act fun d => (d.sclock.mRuncount,
    { d with sclock := { d.sclock with mRuncount := d.sclock.mRuncount + 1 } })

/-- `--m_runcount`, with the count after it. -/
def decrement : Fw UInt32 :=
  Proc.act fun d => (d.sclock.mRuncount - 1,
    { d.logCall (.clockStop d.sclock.mRuncount) with
      sclock := { d.sclock with mRuncount := d.sclock.mRuncount - 1 } })

def start : Fw Unit := do
  let before ← increment
  if before = 0 then
    let div ← Proc.gets (·.sclock.mDiv)
    gptStartContinuous div

def stop : Fw Unit := do
  let after ← decrement
  if after = 0 then gptStopTimer

/-- An index past the table reads the memory behind it. -/
def rateDiv (d : Device) (rate : ℕ) : UInt32 := rateDivs.getD rate (d.pastRateDivs rate)

def setRate (rate : ℕ) : Fw Unit :=
  Proc.modify fun d => { d.logCall (.rateLookup rate) with
    sclock := { d.sclock with mDiv := rateDiv d rate } }

/-- The index of the first matching divider, else `static_cast<unsigned int>(-1)`. -/
def getRate (d : Device) : UInt32 :=
  match rateDivs.findIdx? (· == d.sclock.mDiv) with
  | some i => i.toUInt32
  | none => 0xFFFFFFFF

end SClock

/-! ### ADC -/

def DriverState.isOneOf (s : DriverState) (allowed : List DriverState) : Bool := allowed.contains s

/-- The depth both drivers accept: 1 or even. -/
def depthOk (depth : ℕ) : Bool := depth == 1 || depth % 2 == 0

/-- `adcStartConversionI` checks a positive depth that is 1 or even, and asserts
`ADC_READY` or `ADC_ERROR`. -/
def adcStartConversion (depth : ℕ) : Fw Unit :=
  Proc.guarded (fun d => d.logCall (.adcStart d.adc.driver.state depth))
    (fun d => decide (0 < depth) && depthOk depth &&
      d.adc.driver.state.isOneOf [.READY, .ERROR])
    fun d => ((), { d with
      adc := { d.adc with driver := ⟨.ACTIVE, depth⟩, nextFull := false } })

/-- `adcStopConversion` asserts `ADC_READY` or `ADC_ACTIVE` and does nothing when
the driver is ready. -/
def adcStopConversion : Fw Unit :=
  Proc.guarded id (fun d => d.adc.driver.state.isOneOf [.READY, .ACTIVE])
    fun d => ((), { d with
      adc := { d.adc with driver := { d.adc.driver with state := .READY } } })

namespace ADC

/-- The presets of `ADC::setRate` on the L4 target. -/
def ratePresets : List Preset :=
  [(16, 1, 2), (16, 0, 2), (20, 0, 2), (32, 0, 2), (48, 0, 2), (73, 0, 1)]

def start (buffer count : ℕ) (operation : Operation) : Fw Unit := do
  Proc.modify fun d => { d with adc := { d.adc with mCurrentBuffer := some buffer } }
  Proc.modify fun d => { d with adc := { d.adc with mCurrentBufferSize := count } }
  Proc.modify fun d => { d with adc := { d.adc with mOperation := some operation } }
  adcStartConversion count
  SClock.start

def stop : Fw Unit := do
  SClock.stop
  adcStopConversion
  Proc.modify fun d => { d with adc := { d.adc with mCurrentBuffer := none } }
  Proc.modify fun d => { d with adc := { d.adc with mCurrentBufferSize := 0 } }
  Proc.modify fun d => { d with adc := { d.adc with mOperation := none } }

def setRate (rate : ℕ) : Fw Unit :=
  Proc.modify fun d => { d.logCall (.presetLookup rate) with
    adc := { d.adc with preset := ratePresets.getD rate (d.pastPresets rate) } }

def setOperation (operation : Operation) (d : Device) : Device :=
  { d with adc := { d.adc with mOperation := some operation } }

end ADC

/-! ### DAC -/

/-- `dacStartConversionI` checks a depth that is 1 or even, but not that it is
positive, and asserts `DAC_READY`, `DAC_COMPLETE` or `DAC_ERROR`. -/
def dacStartConversion (channel : Fin 2) (depth : ℕ) : Fw Unit :=
  Proc.guarded (fun d => d.logCall (.dacStart channel (d.dac channel).state depth))
    (fun d => depthOk depth && (d.dac channel).state.isOneOf [.READY, .COMPLETE, .ERROR])
    fun d => ((), { d with dac := Function.update d.dac channel ⟨.ACTIVE, depth⟩ })

def dacStopConversion (channel : Fin 2) : Fw Unit :=
  Proc.guarded id (fun d => (d.dac channel).state.isOneOf [.READY, .ACTIVE])
    fun d => ((), { d with
      dac := Function.update d.dac channel { d.dac channel with state := .READY } })

namespace DAC

def start (channel : Fin 2) (count : ℕ) : Fw Unit := do
  if channel = 1 then
    Proc.modify fun d => { d with dacIsDone := -1 }
  dacStartConversion channel count
  SClock.start

def stop (channel : Fin 2) : Fw Unit := do
  dacStopConversion channel
  SClock.stop

def isSigGenRunning (d : Device) : Bool := (d.dac 1).state == .ACTIVE

def sigGenWantsMore : Fw ℤ := do
  let isDone ← Proc.gets (·.dacIsDone)
  if isDone ≠ -1 then
    let tmp ← Proc.gets (·.dacIsDone)
    Proc.modify fun d => { d with dacIsDone := -1 }
    pure tmp
  else
    pure (-1)

end DAC

end Stmdsp
