import Stmdsp.Model.CommandRun

/-! Which handlers leave the clock and the converters alone. Fifteen of the
nineteen do; `startConversion`, `stopConversion`, `startGenerator` and
`stopGenerator` are the rest. -/

namespace Stmdsp

open Proc

/-- Calls that start a converter or release the clock. -/
def Call.isConverter : Call → Bool
  | .adcStart _ _ => true
  | .dacStart _ _ _ => true
  | .clockStop _ => true
  | _ => false

/-- The state the clock count is about. -/
structure ConverterView where
  runStatus : RunStatus
  mRuncount : UInt32
  timer : Option UInt32
  adcDriver : Driver
  dac : Fin 2 → Driver

def Device.converters (d : Device) : ConverterView :=
  ⟨d.runStatus, d.sclock.mRuncount, d.sclock.timer, d.adc.driver, d.dac⟩

/-- The state the conversion pipeline is about. -/
structure PipeView where
  runStatus : RunStatus
  adcDriver : Driver
  mCurrentBuffer : Option ℕ
  mCurrentBufferSize : ℕ
  mOperation : Option Operation
  events : ℕ
  nextFull : Bool
  mMailbox : Mailbox Msg 2
  conv : List ConvEvent

def Device.pipe (d : Device) : PipeView :=
  ⟨d.runStatus, d.adc.driver, d.adc.mCurrentBuffer, d.adc.mCurrentBufferSize, d.adc.mOperation,
    d.adc.events, d.adc.nextFull, d.mMailbox, d.conv⟩

structure CoreView where
  converters : ConverterView
  pipe : PipeView

def Device.core (d : Device) : CoreView := ⟨d.converters, d.pipe⟩

/-- All of it, with the sizes of the buffers. -/
structure QuietView where
  core : CoreView
  inSize : ℕ
  outSize : ℕ
  generatorSize : ℕ

def Device.quiet (d : Device) : QuietView := ⟨d.core, d.In.mSize, d.Out.mSize, d.Generator.mSize⟩

/-- The view is the same and the trace has grown by calls to no converter. -/
def Leaves {τ : Type} (view : Device → τ) (d d' : Device) : Prop :=
  view d' = view d ∧ ∃ t, d'.trace = d.trace ++ t ∧ ∀ c ∈ t, c.isConverter = false

section Leaves

variable {τ : Type} {view : Device → τ} {d d' : Device}

theorem Leaves.refl (d : Device) : Leaves view d d := ⟨rfl, [], by simp, by simp⟩

theorem Leaves.trans (a b c : Device) (h : Leaves view a b) (k : Leaves view b c) :
    Leaves view a c := by
  obtain ⟨hv, t, ht, hc⟩ := h
  obtain ⟨kv, u, hu, kc⟩ := k
  refine ⟨kv.trans hv, t ++ u, by rw [hu, ht, List.append_assoc], ?_⟩
  intro x hx
  rcases List.mem_append.mp hx with hx | hx
  · exact hc x hx
  · exact kc x hx

theorem Leaves.of_trace_eq (hv : view d' = view d) (ht : d'.trace = d.trace) : Leaves view d d' :=
  ⟨hv, [], by simpa using ht, by simp⟩

theorem Leaves.of_logged (c : Call) (hv : view d' = view d) (ht : d'.trace = d.trace ++ [c])
    (hc : c.isConverter = false) : Leaves view d d' :=
  ⟨hv, [c], ht, by simpa using hc⟩

theorem Leaves.quiet_core (h : Leaves Device.quiet d d') : Leaves Device.core d d' :=
  ⟨congrArg QuietView.core h.1, h.2⟩

theorem Leaves.core_converters (h : Leaves Device.core d d') : Leaves Device.converters d d' :=
  ⟨congrArg CoreView.converters h.1, h.2⟩

end Leaves

/-! ### Stream and error store -/

theorem quiet_read (n : ℕ) : Keeps (Leaves Device.quiet) (USBSerial.read n) :=
  keeps_guarded (fun _ => .of_logged (.read n) rfl rfl rfl) fun _ _ => .of_logged (.read n) rfl rfl rfl

theorem quiet_write (bytes : Device → List UInt8) :
    Keeps (Leaves Device.quiet) (USBSerial.write bytes) :=
  keeps_guarded (fun d => .of_logged (.write (bytes d)) rfl rfl rfl)
    fun d _ => .of_logged (.write (bytes d)) rfl rfl rfl

theorem quiet_awaitAck : Keeps (Leaves Device.quiet) USBSerial.awaitAck :=
  keeps_await fun _ _ => .of_logged (.read 1) rfl rfl rfl

theorem leaves_em (em : ErrorManager) (d : Device) : Leaves Device.quiet d { d with em := em } :=
  .of_trace_eq rfl rfl

theorem quiet_assert (c : Device → Bool) (e : Error) : Keeps (Leaves Device.quiet) (EM.assert c e) := by
  refine keeps_act fun d => ?_
  by_cases h : c d = true
  · simpa [h] using Leaves.refl d
  · simpa [h] using leaves_em (d.em.add e) d

theorem quiet_gets {α : Type} (f : Device → α) : Keeps (Leaves Device.quiet) (Proc.gets f) :=
  keeps_gets fun d => Leaves.refl d

/-! ### Handlers that leave the pipeline alone -/

theorem quiet_writeADCBuffer : Keeps (Leaves Device.quiet) writeADCBuffer :=
  (quiet_gets _).bind fun _ => (quiet_read _).bind fun _ =>
    keeps_modify fun _ => .of_trace_eq rfl rfl

theorem quiet_loadSegments (fuel i : ℕ) (phdr : UInt32) (loaded : Bool) :
    Keeps (Leaves Device.quiet) (ELFManager.loadSegments fuel i phdr loaded) := by
  induction fuel generalizing i phdr loaded with
  | zero => trivial
  | succ fuel ih =>
    refine (quiet_gets _).bind fun phnum => ?_
    split
    · exact (keeps_act fun _ => .of_trace_eq rfl rfl).bind fun copied =>
        (quiet_gets _).bind fun stride => ih _ _ _
    · trivial

theorem quiet_loadFromInternalBuffer :
    Keeps (Leaves Device.quiet) ELFManager.loadFromInternalBuffer := by
  refine (keeps_modify fun _ => .of_trace_eq rfl rfl).bind fun _ => ?_
  refine (quiet_gets _).bind fun magic => ?_
  split
  · refine (quiet_gets _).bind fun phdr => (quiet_loadSegments _ _ _ _).bind fun loaded => ?_
    split
    · exact (keeps_modify fun _ => .of_trace_eq rfl rfl).bind fun _ => trivial
    · trivial
  · trivial

theorem quiet_loadAlgorithm : Keeps (Leaves Device.quiet) loadAlgorithm := by
  refine (quiet_assert _ _).bind fun idle => ?_
  split
  · refine (quiet_read _).bind fun bytes => (quiet_assert _ _).bind fun ok => ?_
    split
    · refine (quiet_assert _ _).bind fun fits => ?_
      split
      · refine (quiet_read _).bind fun payload => ?_
        refine (keeps_modify fun _ => .of_trace_eq rfl rfl).bind fun _ => ?_
        exact quiet_loadFromInternalBuffer.bind fun success =>
          (quiet_assert _ _).bind fun _ => trivial
      · trivial
    · trivial
  · trivial

theorem quiet_readStatus : Keeps (Leaves Device.quiet) readStatus :=
  (quiet_gets _).bind fun _ => (keeps_act fun _ => .of_trace_eq rfl rfl).bind fun _ => quiet_write _

theorem quiet_unloadAlgorithm : Keeps (Leaves Device.quiet) unloadAlgorithm :=
  keeps_modify fun _ => .of_trace_eq rfl rfl

theorem quiet_sampleRate : Keeps (Leaves Device.quiet) sampleRate := by
  refine (quiet_read _).bind fun bytes => (quiet_assert _ _).bind fun ok => ?_
  split
  · dsimp only
    split
    · exact (quiet_gets _).bind fun _ => quiet_write _
    · exact (keeps_modify fun _ => .of_logged (.rateLookup _) rfl rfl rfl).bind fun _ =>
        keeps_modify fun _ => .of_logged (.presetLookup _) rfl rfl rfl
  · trivial

theorem quiet_sendChunks (buffer : Device → SampleBuffer) (samps total offset : ℕ) :
    Keeps (Leaves Device.quiet) (sendChunks buffer samps total offset) := by
  induction total using Nat.strong_induction_on generalizing offset with
  | _ total ih =>
    rw [sendChunks]
    split
    · exact (quiet_write _).bind fun _ => quiet_awaitAck.bind fun _ => ih _ (by omega) _
    · exact (quiet_write _).bind fun _ => quiet_awaitAck

theorem quiet_sendModified (buffer : Device → SampleBuffer)
    (setBuffer : SampleBuffer → Device → Device)
    (h : ∀ d, Leaves Device.quiet d (setBuffer (buffer d).modified.2 d)) :
    Keeps (Leaves Device.quiet) (sendModified buffer setBuffer) := by
  refine (keeps_act h).bind fun mark => ?_
  cases mark with
  | some samps =>
    exact (quiet_gets _).bind fun _ => (quiet_write _).bind fun _ => (quiet_gets _).bind fun _ =>
      quiet_sendChunks _ _ _ _
  | none => exact quiet_write _

theorem quiet_readConversionResults : Keeps (Leaves Device.quiet) readConversionResults :=
  quiet_sendModified _ _ fun _ => .of_trace_eq rfl rfl

theorem quiet_readConversionInput : Keeps (Leaves Device.quiet) readConversionInput :=
  quiet_sendModified _ _ fun _ => .of_trace_eq rfl rfl

/-! ### Handlers that change sizes or the event handler -/

theorem core_of_quiet {α : Type} {p : Fw α} (h : Keeps (Leaves Device.quiet) p) :
    Keeps (Leaves Device.core) p :=
  h.mono fun _ _ => Leaves.quiet_core

theorem converters_of_core {α : Type} {p : Fw α} (h : Keeps (Leaves Device.core) p) :
    Keeps (Leaves Device.converters) p :=
  h.mono fun _ _ => Leaves.core_converters

theorem converters_of_quiet {α : Type} {p : Fw α} (h : Keeps (Leaves Device.quiet) p) :
    Keeps (Leaves Device.converters) p :=
  converters_of_core (core_of_quiet h)

theorem core_setBufferSize : Keeps (Leaves Device.core) setBufferSize := by
  refine (core_of_quiet (quiet_assert _ _)).bind fun idle => ?_
  split
  · refine (core_of_quiet (quiet_read _)).bind fun bytes => ?_
    refine (core_of_quiet (quiet_assert _ _)).bind fun ok => ?_
    split
    · refine (core_of_quiet (quiet_assert _ _)).bind fun fits => ?_
      split
      · exact (keeps_modify fun _ => .of_trace_eq rfl rfl).bind fun _ =>
          keeps_modify fun _ => .of_trace_eq rfl rfl
      · trivial
    · trivial
  · trivial

theorem core_sigGenWantsMore : Keeps (Leaves Device.core) DAC.sigGenWantsMore := by
  refine (core_of_quiet (quiet_gets _)).bind fun isDone => ?_
  split
  · exact (core_of_quiet (quiet_gets _)).bind fun _ =>
      (keeps_modify fun _ => .of_trace_eq rfl rfl).bind fun _ => trivial
  · trivial

theorem core_updateGenerator : Keeps (Leaves Device.core) updateGenerator := by
  refine (core_of_quiet (quiet_read _)).bind fun bytes => ?_
  refine (core_of_quiet (quiet_assert _ _)).bind fun ok => ?_
  split
  · refine (core_of_quiet (quiet_assert _ _)).bind fun fits => ?_
    split
    · refine (core_of_quiet (quiet_gets _)).bind fun running => ?_
      split
      · exact (keeps_modify fun _ => .of_trace_eq rfl rfl).bind fun _ =>
          (core_of_quiet (quiet_gets _)).bind fun _ =>
          (core_of_quiet (quiet_read _)).bind fun _ =>
          keeps_modify fun _ => .of_trace_eq rfl rfl
      · refine core_sigGenWantsMore.bind fun more => ?_
        split
        · exact core_of_quiet (quiet_write _)
        · exact (core_of_quiet (quiet_write _)).bind fun _ =>
            (core_of_quiet (quiet_gets _)).bind fun _ =>
            (core_of_quiet (quiet_gets _)).bind fun _ =>
            (core_of_quiet (quiet_read _)).bind fun _ =>
            keeps_modify fun _ => .of_trace_eq rfl rfl
    · trivial
  · trivial

theorem converters_measureConversion : Keeps (Leaves Device.converters) measureConversion := by
  refine (converters_of_quiet (quiet_assert _ _)).bind fun running => ?_
  split
  · exact keeps_modify fun _ => .of_trace_eq rfl rfl
  · trivial

/-! ### Clock and DAC -/

/-- Only the clock, the DAC and the trace differ. -/
structure OnlyDac (d d' : Device) : Prop where
  eq : d' = { d with
    sclock := d'.sclock, dac := d'.dac, dacIsDone := d'.dacIsDone, trace := d'.trace }

theorem onlyDac_sclock_start : Keeps OnlyDac SClock.start := by
  refine (keeps_act fun _ => ⟨rfl⟩).bind fun before => ?_
  split
  · exact (keeps_gets fun _ => ⟨rfl⟩).bind fun _ => keeps_guarded (fun _ => ⟨rfl⟩) fun _ _ => ⟨rfl⟩
  · trivial

theorem onlyDac_sclock_stop : Keeps OnlyDac SClock.stop := by
  refine (keeps_act fun _ => ⟨rfl⟩).bind fun after => ?_
  split
  · exact keeps_modify fun _ => ⟨rfl⟩
  · trivial

theorem onlyDac_start (channel : Fin 2) (count : ℕ) : Keeps OnlyDac (DAC.start channel count) := by
  unfold DAC.start
  split
  · exact (keeps_modify fun _ => ⟨rfl⟩).bind fun _ =>
      (keeps_guarded (fun _ => ⟨rfl⟩) fun _ _ => ⟨rfl⟩).bind fun _ => onlyDac_sclock_start
  · exact (keeps_guarded (fun _ => ⟨rfl⟩) fun _ _ => ⟨rfl⟩).bind fun _ => onlyDac_sclock_start

theorem onlyDac_stop (channel : Fin 2) : Keeps OnlyDac (DAC.stop channel) := by
  refine Keeps.bind ?_ fun _ => onlyDac_sclock_stop
  exact keeps_guarded (fun _ => ⟨rfl⟩) fun _ _ => ⟨rfl⟩

/-! ### Handlers that take no bytes off the stream -/

/-- The sizes of the buffers and the bytes not yet read. -/
structure HostView where
  inSize : ℕ
  outSize : ℕ
  generatorSize : ℕ
  input : List UInt8

def Device.hostView (d : Device) : HostView :=
  ⟨d.In.mSize, d.Out.mSize, d.Generator.mSize, d.input⟩

structure SameHost (d d' : Device) : Prop where
  view : d'.hostView = d.hostView

theorem SameHost.refl (d : Device) : SameHost d d := ⟨rfl⟩

theorem SameHost.trans (a b c : Device) (h : SameHost a b) (k : SameHost b c) : SameHost a c :=
  ⟨k.view.trans h.view⟩

theorem SameHost.input {d d' : Device} (h : SameHost d d') : d'.input = d.input :=
  congrArg HostView.input h.view

theorem host_assert (c : Device → Bool) (e : Error) : Keeps SameHost (EM.assert c e) := by
  refine keeps_act fun d => ?_
  by_cases h : c d = true
  · simpa [h] using SameHost.refl d
  · simpa [h] using (⟨rfl⟩ : SameHost d { d with em := d.em.add e })

theorem host_write (bytes : Device → List UInt8) : Keeps SameHost (USBSerial.write bytes) :=
  keeps_guarded (fun _ => ⟨rfl⟩) fun _ _ => ⟨rfl⟩

theorem SameHost.of_onlyDac {d d' : Device} (h : OnlyDac d d') : SameHost d d' :=
  ⟨by rw [h.eq]; rfl⟩

theorem host_sclock_start : Keeps SameHost SClock.start :=
  onlyDac_sclock_start.mono fun _ _ => .of_onlyDac

theorem host_sclock_stop : Keeps SameHost SClock.stop :=
  onlyDac_sclock_stop.mono fun _ _ => .of_onlyDac

theorem host_dac_start (channel : Fin 2) (count : ℕ) : Keeps SameHost (DAC.start channel count) :=
  (onlyDac_start channel count).mono fun _ _ => .of_onlyDac

theorem host_dac_stop (channel : Fin 2) : Keeps SameHost (DAC.stop channel) :=
  (onlyDac_stop channel).mono fun _ _ => .of_onlyDac

theorem host_startConversion : Keeps SameHost startConversion := by
  refine (host_assert _ _).bind fun idle => ?_
  split
  · refine (keeps_modify fun _ => ⟨rfl⟩).bind fun _ => (keeps_modify fun _ => ⟨rfl⟩).bind fun _ => ?_
    refine (keeps_gets fun _ => ⟨rfl⟩).bind fun _ => Keeps.bind ?_ fun _ =>
      (keeps_gets fun _ => ⟨rfl⟩).bind fun _ => host_dac_start _ _
    exact (keeps_modify fun _ => ⟨rfl⟩).bind fun _ => (keeps_modify fun _ => ⟨rfl⟩).bind fun _ =>
      (keeps_modify fun _ => ⟨rfl⟩).bind fun _ =>
      (keeps_guarded (fun _ => ⟨rfl⟩) fun _ _ => ⟨rfl⟩).bind fun _ => host_sclock_start
  · trivial

theorem host_stopConversion : Keeps SameHost stopConversion := by
  refine (host_assert _ _).bind fun running => ?_
  split
  · refine ((host_dac_stop _).bind fun _ => ?_).bind fun _ => keeps_modify fun _ => ⟨rfl⟩
    exact host_sclock_stop.bind fun _ => (keeps_guarded (fun _ => ⟨rfl⟩) fun _ _ => ⟨rfl⟩).bind fun _ =>
      (keeps_modify fun _ => ⟨rfl⟩).bind fun _ => (keeps_modify fun _ => ⟨rfl⟩).bind fun _ =>
      keeps_modify fun _ => ⟨rfl⟩
  · trivial

theorem host_measureConversion : Keeps SameHost measureConversion := by
  refine (host_assert _ _).bind fun running => ?_
  split
  · exact keeps_modify fun _ => ⟨rfl⟩
  · trivial

theorem host_startGenerator : Keeps SameHost startGenerator :=
  (keeps_gets fun _ => ⟨rfl⟩).bind fun _ => host_dac_start _ _

theorem host_readStatus : Keeps SameHost readStatus :=
  (keeps_gets fun _ => ⟨rfl⟩).bind fun _ => (keeps_act fun _ => ⟨rfl⟩).bind fun _ => host_write _

theorem host_loadSegments (fuel i : ℕ) (phdr : UInt32) (loaded : Bool) :
    Keeps SameHost (ELFManager.loadSegments fuel i phdr loaded) := by
  induction fuel generalizing i phdr loaded with
  | zero => trivial
  | succ fuel ih =>
    refine (keeps_gets fun _ => ⟨rfl⟩).bind fun phnum => ?_
    split
    · exact (keeps_act fun _ => ⟨rfl⟩).bind fun copied =>
        (keeps_gets fun _ => ⟨rfl⟩).bind fun stride => ih _ _ _
    · trivial

theorem host_loadFromInternalBuffer : Keeps SameHost ELFManager.loadFromInternalBuffer := by
  refine (keeps_modify fun _ => ⟨rfl⟩).bind fun _ => (keeps_gets fun _ => ⟨rfl⟩).bind fun magic => ?_
  split
  · refine (keeps_gets fun _ => ⟨rfl⟩).bind fun phdr =>
      (host_loadSegments _ _ _ _).bind fun loaded => ?_
    split
    · exact (keeps_modify fun _ => ⟨rfl⟩).bind fun _ => trivial
    · trivial
  · trivial

end Stmdsp
