import Stmdsp.Proofs.Frames

/-! What the four handlers that start or stop converters do, as one inversion
lemma each, and the command table as a case distinction. -/

namespace Stmdsp

open Proc

/-- `SClock::start` on the clock alone; `none` where `gptStartContinuous` halts. -/
def clockStart (c : SClockState) : Option SClockState :=
  if c.mRuncount = 0 then
    if c.timer.isNone then some { c with mRuncount := c.mRuncount + 1, timer := some c.mDiv } else none
  else some { c with mRuncount := c.mRuncount + 1 }

def clockStop (c : SClockState) : SClockState :=
  { c with
    mRuncount := c.mRuncount - 1
    timer := if c.mRuncount - 1 = 0 then none else c.timer }

theorem sclock_start_ok {d d' : Device} :
    SClock.start.run d = .ok () d' ↔
      ∃ c, clockStart d.sclock = some c ∧ d' = { d with sclock := c } := by
  by_cases h0 : d.sclock.mRuncount = 0 <;> by_cases ht : d.sclock.timer.isNone = true <;>
    simp [SClock.start, SClock.increment, gptStartContinuous, clockStart, h0, ht, eq_comm]

theorem sclock_start_trace {d : Device} {o : Outcome Device Unit} (h : SClock.start.run d = o) :
    o.state.trace = d.trace := by
  subst h
  by_cases h0 : d.sclock.mRuncount = 0 <;> by_cases ht : d.sclock.timer.isNone = true <;>
    simp [SClock.start, SClock.increment, gptStartContinuous, h0, ht]

theorem sclock_stop_run (d : Device) :
    SClock.stop.run d =
      .ok () { d with
        sclock := clockStop d.sclock
        trace := d.trace ++ [.clockStop d.sclock.mRuncount] } := by
  by_cases h : d.sclock.mRuncount - 1 = 0 <;>
    simp [SClock.stop, SClock.decrement, gptStopTimer, clockStop, Device.logCall, h]

/-- The driver states `dacStartConversionI` starts from. -/
def dacStartable (s : DriverState) : Bool := s.isOneOf [.READY, .COMPLETE, .ERROR]

def adcStartable (s : DriverState) : Bool := s.isOneOf [.READY, .ERROR]

/-- The states `adcStopConversion` and `dacStopConversion` accept. -/
def stoppable (s : DriverState) : Bool := s.isOneOf [.READY, .ACTIVE]

/-! ### The generator -/

theorem startGenerator_ok {d d' : Device} (h : startGenerator.run d = .ok () d') :
    depthOk d.Generator.mSize = true ∧ dacStartable (d.dac 1).state = true ∧
      ∃ c, clockStart d.sclock = some c ∧
        d' = { d with
          dacIsDone := -1
          trace := d.trace ++ [.dacStart 1 (d.dac 1).state d.Generator.mSize]
          dac := Function.update d.dac 1 ⟨.ACTIVE, d.Generator.mSize⟩
          sclock := c } := by
  simp only [startGenerator, DAC.start, bind_eq, run_gets_bind, if_true, run_modify_bind,
    dacStartConversion, run_guarded_bind] at h
  split at h
  · rename_i hc
    obtain ⟨c, hc', rfl⟩ := sclock_start_ok.mp h
    simp only [Bool.and_eq_true] at hc
    exact ⟨hc.1, hc.2, c, hc', rfl⟩
  · simp at h

theorem startGenerator_trace (d : Device) :
    (startGenerator.run d).state.trace =
      d.trace ++ [.dacStart 1 (d.dac 1).state d.Generator.mSize] := by
  simp only [startGenerator, DAC.start, bind_eq, run_gets_bind, if_true, run_modify_bind,
    dacStartConversion, run_guarded_bind]
  split
  · rw [sclock_start_trace rfl]; rfl
  · rfl

theorem dac_stop_run (channel : Fin 2) (d : Device) :
    (DAC.stop channel).run d =
      if stoppable (d.dac channel).state then
        .ok () { d with
          dac := Function.update d.dac channel { d.dac channel with state := .READY }
          sclock := clockStop d.sclock
          trace := d.trace ++ [.clockStop d.sclock.mRuncount] }
      else .halted d := by
  simp only [DAC.stop, bind_eq, dacStopConversion, run_guarded_bind, sclock_stop_run, id]
  rfl

/-! ### The conversion -/

theorem adc_stop_run (d : Device) :
    ADC.stop.run d =
      if stoppable d.adc.driver.state then
        .ok () { d with
          sclock := clockStop d.sclock
          trace := d.trace ++ [.clockStop d.sclock.mRuncount]
          adc := { d.adc with
            driver := { d.adc.driver with state := .READY }
            mCurrentBuffer := none
            mCurrentBufferSize := 0
            mOperation := none } }
      else .halted { d with
          sclock := clockStop d.sclock
          trace := d.trace ++ [.clockStop d.sclock.mRuncount] } := by
  unfold ADC.stop
  simp only [bind_eq]
  rw [run_bind, sclock_stop_run]
  simp only [adcStopConversion, run_guarded_bind, run_modify_bind, run_modify, id]
  rfl

/-- `stopConversion` while running, on drivers that accept a stop. -/
theorem stopConversion_ok {d d' : Device} (hrun : d.runStatus = .Running)
    (h : stopConversion.run d = .ok () d') :
    stoppable (d.dac 0).state = true ∧ stoppable d.adc.driver.state = true ∧
      d' = { d with
        runStatus := .Idle
        dac := Function.update d.dac 0 { d.dac 0 with state := .READY }
        sclock := clockStop (clockStop d.sclock)
        trace := d.trace ++ [.clockStop d.sclock.mRuncount] ++
          [.clockStop (clockStop d.sclock).mRuncount]
        adc := { d.adc with
          driver := { d.adc.driver with state := .READY }
          mCurrentBuffer := none
          mCurrentBufferSize := 0
          mOperation := none } } := by
  simp only [stopConversion, bind_eq, EM.assert, run_act_bind, hrun, beq_self_eq_true, if_true,
    ConversionManager.stop, run_bind_ok, dac_stop_run, adc_stop_run, run_modify] at h
  obtain ⟨_, t, ⟨_, u, hdac, hadc⟩, hd⟩ := h
  split at hdac
  · rename_i h0
    simp only [Outcome.ok.injEq, true_and] at hdac
    subst hdac
    split at hadc
    · rename_i h1
      simp only [Outcome.ok.injEq, true_and] at hadc hd
      subst hadc hd
      exact ⟨h0, h1, rfl⟩
    · simp at hadc
  · simp at hdac

theorem stopConversion_rejected {d : Device} (h : d.runStatus ≠ .Running) :
    stopConversion.run d = .ok () { d with em := d.em.add .NotRunning } := by
  simp [stopConversion, EM.assert, h]

/-- The state in which an accepted `startConversion` calls `adcStartConversion`. -/
def startingAdc (d : Device) : Device :=
  { d with
    runStatus := .Running
    Out := d.Out.clear
    adc := { d.adc with
      mCurrentBuffer := some 0
      mCurrentBufferSize := d.In.mSize
      mOperation := some .adcReadHandler } }

theorem startConversion_run {d : Device} (h : d.runStatus = .Idle) :
    startConversion.run d =
      ((adcStartConversion d.In.mSize).bind fun _ => SClock.start.bind fun _ =>
        (Proc.gets (·.Out.mSize)).bind fun count => DAC.start 0 count).run (startingAdc d) := by
  simp only [startConversion, bind_eq, EM.assert, h, beq_self_eq_true, if_true,
    ConversionManager.start, run_bind, run_modify, ADC.start, startingAdc, Proc.gets, run_act]
  cases (adcStartConversion d.In.mSize).run _ <;> rfl

theorem startConversion_rejected {d : Device} (h : d.runStatus ≠ .Idle) :
    startConversion.run d = .ok () { d with em := d.em.add .NotIdle } := by
  simp [startConversion, EM.assert, h]

theorem startConversion_ok {d d' : Device} (hidle : d.runStatus = .Idle)
    (h : startConversion.run d = .ok () d') :
    0 < d.In.mSize ∧ adcStartable d.adc.driver.state = true ∧ dacStartable (d.dac 0).state = true ∧
      ∃ c₁ c₂, clockStart d.sclock = some c₁ ∧ clockStart c₁ = some c₂ ∧
        d' = { startingAdc d with
          adc := { (startingAdc d).adc with driver := ⟨.ACTIVE, d.In.mSize⟩, nextFull := false }
          dac := Function.update d.dac 0 ⟨.ACTIVE, d.Out.mSize⟩
          sclock := c₂
          trace := d.trace ++ [.adcStart d.adc.driver.state d.In.mSize] ++
            [.dacStart 0 (d.dac 0).state d.Out.mSize] } := by
  rw [startConversion_run hidle] at h
  simp only [adcStartConversion, run_guarded_bind] at h
  split at h
  · rename_i ha
    obtain ⟨_, t, hstart, h⟩ := run_bind_ok.mp h
    obtain ⟨c₁, hc₁, rfl⟩ := sclock_start_ok.mp hstart
    simp only [run_gets_bind, DAC.start, bind_eq, dacStartConversion, Fin.zero_eq_one_iff,
      OfNat.ofNat_ne_one, if_false, run_guarded_bind] at h
    split at h
    · rename_i hd
      obtain ⟨c₂, hc₂, rfl⟩ := sclock_start_ok.mp h
      simp only [Bool.and_eq_true, decide_eq_true_eq] at ha hd
      exact ⟨ha.1.1, ha.2, hd.2, c₁, c₂, hc₁, hc₂, rfl⟩
    · simp at h
  · simp at h

/-- However an accepted `startConversion` ends, it has called the ADC driver, and
the DAC driver at most once after it. -/
theorem startConversion_trace {d : Device} (hidle : d.runStatus = .Idle) :
    ∃ t, (startConversion.run d).state.trace =
        d.trace ++ .adcStart d.adc.driver.state d.In.mSize :: t ∧
      (t = [] ∨ t = [.dacStart 0 (d.dac 0).state d.Out.mSize]) := by
  rw [startConversion_run hidle]
  simp only [adcStartConversion, run_guarded_bind]
  split
  · rw [run_bind]
    cases hs : SClock.start.run _ with
    | ok a t =>
      obtain ⟨c, -, rfl⟩ := sclock_start_ok.mp hs
      refine ⟨[.dacStart 0 (d.dac 0).state d.Out.mSize], ?_, .inr rfl⟩
      simp only [run_gets_bind, DAC.start, bind_eq, dacStartConversion, Fin.zero_eq_one_iff,
        OfNat.ofNat_ne_one, if_false, run_guarded_bind]
      split
      · rw [sclock_start_trace rfl]
        simp [Device.logCall, startingAdc, SampleBuffer.clear]
      · simp [Device.logCall, startingAdc, SampleBuffer.clear]
    | halted t =>
      exact ⟨[], by simpa [Device.logCall, startingAdc] using sclock_start_trace hs, .inl rfl⟩
    | blocked t =>
      exact ⟨[], by simpa [Device.logCall, startingAdc] using sclock_start_trace hs, .inl rfl⟩
  · exact ⟨[], by simp [Device.logCall, startingAdc], .inl rfl⟩

/-! ### The command table -/

theorem dispatch_induction {P : Fw Unit → Prop} (c : UInt8)
    (htable : ∀ x ∈ commandTable, x.1 = c → P x.2) (hnone : P (pure ())) : P (dispatch c) := by
  unfold dispatch
  split
  · rename_i x handler h
    exact htable _ (List.mem_of_find?_eq_some h) (by simpa using List.find?_some h)
  · exact hnone

/-- The bytes of the four handlers that start or stop converters. -/
def converterCommands : List UInt8 := ['R'.toUInt8, 'S'.toUInt8, 'W'.toUInt8, 'w'.toUInt8]

theorem converters_dispatch {c : UInt8} (h : c ∉ converterCommands) :
    Keeps (Leaves Device.converters) (dispatch c) := by
  refine dispatch_induction c ?_ trivial
  intro x hx hc
  subst hc
  simp only [commandTable, List.mem_cons, List.not_mem_nil, or_false] at hx
  rcases hx with rfl | rfl | rfl | rfl | rfl | rfl | rfl | rfl | rfl | rfl | rfl | rfl | rfl | rfl |
    rfl | rfl | rfl | rfl | rfl
  · exact converters_of_quiet quiet_writeADCBuffer
  · exact converters_of_core core_setBufferSize
  · exact converters_of_core core_updateGenerator
  · exact converters_of_quiet quiet_loadAlgorithm
  · exact converters_of_quiet quiet_readStatus
  · exact converters_measureConversion
  · exact absurd (by decide) h
  · exact absurd (by decide) h
  · exact absurd (by decide) h
  · exact converters_of_quiet (quiet_write _)
  · exact converters_of_quiet (quiet_write _)
  · exact converters_of_quiet quiet_unloadAlgorithm
  · exact converters_of_quiet (quiet_write _)
  · exact converters_of_quiet (quiet_write _)
  · exact converters_of_quiet quiet_sampleRate
  · exact converters_of_quiet quiet_readConversionResults
  · exact converters_of_quiet quiet_readConversionInput
  · trivial
  · exact absurd (by decide) h

end Stmdsp
