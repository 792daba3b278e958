import Stmdsp.Proofs.Converters

/-! Every atomic step of every handler, as one inductive relation: which fields the
handler of a command byte writes. What a handler leaves alone is a case analysis on it. -/

namespace Stmdsp

open Proc

/-- The commands that start or stop a converter write clock and DAC. -/
def convertsWith (c : UInt8) : Prop := c ∈ converterCommands

/-- A step of the handler of `c`. -/
inductive HandlerStep (c : UInt8) (d : Device) : Device → Prop where
  /-- A read, a write, or an acknowledgement. -/
  | stream (input : List UInt8) (trace : List Call) :
      HandlerStep c d { d with input := input, trace := trace }
  | error (em : ErrorManager) : HandlerStep c d { d with em := em }
  | same : HandlerStep c d d
  | inSamples (hc : c = 'A'.toUInt8) (mem : Storage) :
      HandlerStep c d { d with In := d.In.withStorage mem }
  | inSize (hc : c = 'B'.toUInt8) (n : ℕ) : HandlerStep c d { d with In := d.In.setSize n }
  | outSize (hc : c = 'B'.toUInt8) (n : ℕ) : HandlerStep c d { d with Out := d.Out.setSize n }
  | generatorSize (hc : c = 'D'.toUInt8) (n : ℕ) :
      HandlerStep c d { d with Generator := d.Generator.setSize n }
  | generatorSamples (hc : c = 'D'.toUInt8) (mem : Storage) :
      HandlerStep c d { d with Generator := d.Generator.withStorage mem }
  | memory (hc : c = 'E'.toUInt8) (mem : Memory) : HandlerStep c d { d with mem := mem }
  | entry (hc : c = 'E'.toUInt8 ∨ c = 'e'.toUInt8) (mEntry : UInt32) :
      HandlerStep c d { d with mEntry := mEntry }
  | operation (hc : c = 'M'.toUInt8) : HandlerStep c d (ADC.setOperation .adcReadHandlerMeasure d)
  | status (hc : c = 'R'.toUInt8 ∨ c = 'S'.toUInt8) (runStatus : RunStatus) :
      HandlerStep c d { d with runStatus := runStatus }
  | outClear (hc : c = 'R'.toUInt8) : HandlerStep c d { d with Out := d.Out.clear }
  | conversion (hc : c = 'R'.toUInt8 ∨ c = 'S'.toUInt8) (driver : Driver) (buffer : Option ℕ)
      (size : ℕ) (operation : Option Operation) (nextFull : Bool) (trace : List Call) :
      HandlerStep c d { d with
        trace := trace
        adc := { d.adc with
          driver := driver, mCurrentBuffer := buffer, mCurrentBufferSize := size
          mOperation := operation, nextFull := nextFull } }
  | clock (hc : convertsWith c) (runcount : UInt32) (timer : Option UInt32) (trace : List Call) :
      HandlerStep c d { d with
        trace := trace, sclock := { d.sclock with mRuncount := runcount, timer := timer } }
  | dac (hc : convertsWith c) (dac : Fin 2 → Driver) (trace : List Call) :
      HandlerStep c d { d with trace := trace, dac := dac }
  | taken (hc : c = 'D'.toUInt8 ∨ c = 'W'.toUInt8) : HandlerStep c d { d with dacIsDone := -1 }
  | divider (hc : c = 'r'.toUInt8) (mDiv : UInt32) (trace : List Call) :
      HandlerStep c d { d with trace := trace, sclock := { d.sclock with mDiv := mDiv } }
  | preset (hc : c = 'r'.toUInt8) (preset : Preset) (trace : List Call) :
      HandlerStep c d { d with trace := trace, adc := { d.adc with preset := preset } }
  | outMark (hc : c = 's'.toUInt8) : HandlerStep c d { d with Out := d.Out.modified.2 }
  | inMark (hc : c = 't'.toUInt8) : HandlerStep c d { d with In := d.In.modified.2 }

section Parts

variable {c : UInt8}

theorem steps_read (n : ℕ) : Keeps (HandlerStep c) (USBSerial.read n) :=
  keeps_guarded (fun d => .stream d.input _) fun _ _ => .stream _ _

theorem steps_write (bytes : Device → List UInt8) : Keeps (HandlerStep c) (USBSerial.write bytes) :=
  keeps_guarded (fun d => .stream d.input _) fun d _ => .stream d.input _

theorem steps_gets {α : Type} (f : Device → α) : Keeps (HandlerStep c) (Proc.gets f) :=
  keeps_gets fun _ => .same

theorem steps_assert (condition : Device → Bool) (e : Error) :
    Keeps (HandlerStep c) (EM.assert condition e) := by
  refine keeps_act fun d => ?_
  by_cases h : condition d = true
  · simpa [h] using HandlerStep.same
  · simpa [h] using HandlerStep.error (d.em.add e)

theorem steps_sclock_start (hc : convertsWith c) : Keeps (HandlerStep c) SClock.start := by
  refine (keeps_act fun d => .clock hc _ d.sclock.timer d.trace).bind fun before => ?_
  split
  · exact (steps_gets _).bind fun _ =>
      keeps_guarded (fun _ => .same) fun d _ => .clock hc d.sclock.mRuncount _ d.trace
  · trivial

theorem steps_sclock_stop (hc : convertsWith c) : Keeps (HandlerStep c) SClock.stop := by
  refine (keeps_act fun d => .clock hc _ d.sclock.timer _).bind fun after => ?_
  split
  · exact keeps_modify fun d => .clock hc d.sclock.mRuncount _ d.trace
  · trivial

theorem steps_dac_start (channel : Fin 2) (count : ℕ) (hc : convertsWith c)
    (hW : channel = 1 → c = 'W'.toUInt8) : Keeps (HandlerStep c) (DAC.start channel count) := by
  have hstart : Keeps (HandlerStep c) (dacStartConversion channel count) :=
    keeps_guarded (fun d => .stream d.input _) fun _ _ => .dac hc _ _
  unfold DAC.start
  split
  · rename_i h1
    exact (keeps_modify fun _ => .taken (.inr (hW h1))).bind fun _ =>
      hstart.bind fun _ => steps_sclock_start hc
  · exact hstart.bind fun _ => steps_sclock_start hc

theorem steps_dac_stop (channel : Fin 2) (hc : convertsWith c) :
    Keeps (HandlerStep c) (DAC.stop channel) :=
  Keeps.bind (keeps_guarded (fun _ => .same) fun d _ => .dac hc _ d.trace)
    fun _ => steps_sclock_stop hc

theorem steps_sendModified (buffer : Device → SampleBuffer)
    (setBuffer : SampleBuffer → Device → Device)
    (h : ∀ d, HandlerStep c d (setBuffer (buffer d).modified.2 d)) :
    Keeps (HandlerStep c) (sendModified buffer setBuffer) := by
  have hack : Keeps (HandlerStep c) USBSerial.awaitAck := keeps_await fun _ _ => .stream _ _
  have hchunks : ∀ samps total offset, Keeps (HandlerStep c) (sendChunks buffer samps total offset) := by
    intro samps total
    induction total using Nat.strong_induction_on with
    | _ total ih =>
      intro offset
      rw [sendChunks]
      split
      · exact (steps_write _).bind fun _ => hack.bind fun _ => ih _ (by omega) _
      · exact (steps_write _).bind fun _ => hack
  refine (keeps_act h).bind fun mark => ?_
  cases mark with
  | some samps =>
    exact (steps_gets _).bind fun _ => (steps_write _).bind fun _ => (steps_gets _).bind fun _ =>
      hchunks _ _ _
  | none => exact steps_write _

end Parts

/-! ### The handlers -/

theorem steps_writeADCBuffer : Keeps (HandlerStep 'A'.toUInt8) writeADCBuffer :=
  (steps_gets _).bind fun _ => (steps_read _).bind fun _ => keeps_modify fun _ => .inSamples rfl _

theorem steps_setBufferSize : Keeps (HandlerStep 'B'.toUInt8) setBufferSize := by
  refine (steps_assert _ _).bind fun idle => ?_
  split
  · refine (steps_read _).bind fun bytes => (steps_assert _ _).bind fun ok => ?_
    split
    · refine (steps_assert _ _).bind fun fits => ?_
      split
      · exact (keeps_modify fun _ => .inSize rfl _).bind fun _ => keeps_modify fun _ => .outSize rfl _
      · trivial
    · trivial
  · trivial

theorem steps_updateGenerator : Keeps (HandlerStep 'D'.toUInt8) updateGenerator := by
  refine (steps_read _).bind fun bytes => (steps_assert _ _).bind fun ok => ?_
  split
  · refine (steps_assert _ _).bind fun fits => ?_
    split
    · refine (steps_gets _).bind fun running => ?_
      split
      · exact (keeps_modify fun _ => .generatorSize rfl _).bind fun _ => (steps_gets _).bind fun _ =>
          (steps_read _).bind fun _ => keeps_modify fun _ => .generatorSamples rfl _
      · have hmore : Keeps (HandlerStep 'D'.toUInt8) DAC.sigGenWantsMore := by
          refine (steps_gets _).bind fun isDone => ?_
          split
          · exact (steps_gets _).bind fun _ => (keeps_modify fun _ => .taken (.inl rfl)).bind fun _ => trivial
          · trivial
        refine hmore.bind fun more => ?_
        split
        · exact steps_write _
        · exact (steps_write _).bind fun _ => (steps_gets _).bind fun _ => (steps_gets _).bind fun _ =>
            (steps_read _).bind fun _ => keeps_modify fun _ => .generatorSamples rfl _
    · trivial
  · trivial

theorem steps_loadSegments (fuel i : ℕ) (phdr : UInt32) (loaded : Bool) :
    Keeps (HandlerStep 'E'.toUInt8) (ELFManager.loadSegments fuel i phdr loaded) := by
  induction fuel generalizing i phdr loaded with
  | zero => trivial
  | succ fuel ih =>
    refine (steps_gets _).bind fun phnum => ?_
    split
    · exact (keeps_act fun _ => .memory rfl _).bind fun copied => (steps_gets _).bind fun stride => ih _ _ _
    · trivial

theorem steps_loadAlgorithm : Keeps (HandlerStep 'E'.toUInt8) loadAlgorithm := by
  have hload : Keeps (HandlerStep 'E'.toUInt8) ELFManager.loadFromInternalBuffer := by
    refine (keeps_modify fun _ => .entry (.inl rfl) 0).bind fun _ => (steps_gets _).bind fun magic => ?_
    split
    · refine (steps_gets _).bind fun phdr => (steps_loadSegments _ _ _ _).bind fun loaded => ?_
      split
      · exact (keeps_modify fun _ => .entry (.inl rfl) _).bind fun _ => trivial
      · trivial
    · trivial
  refine (steps_assert _ _).bind fun idle => ?_
  split
  · refine (steps_read _).bind fun bytes => (steps_assert _ _).bind fun ok => ?_
    split
    · refine (steps_assert _ _).bind fun fits => ?_
      split
      · exact (steps_read _).bind fun payload => (keeps_modify fun _ => .memory rfl _).bind fun _ =>
          hload.bind fun success => (steps_assert _ _).bind fun _ => trivial
      · trivial
    · trivial
  · trivial

theorem steps_measureConversion : Keeps (HandlerStep 'M'.toUInt8) measureConversion := by
  refine (steps_assert _ _).bind fun running => ?_
  split
  · exact keeps_modify fun _ => .operation rfl
  · trivial

theorem steps_startConversion : Keeps (HandlerStep 'R'.toUInt8) startConversion := by
  have hc : convertsWith 'R'.toUInt8 := by simp [convertsWith, converterCommands]
  refine (steps_assert _ _).bind fun idle => ?_
  split
  · refine (keeps_modify fun _ => .status (.inl rfl) _).bind fun _ =>
      (keeps_modify fun _ => .outClear rfl).bind fun _ => ?_
    refine (steps_gets _).bind fun _ => Keeps.bind ?_ fun _ =>
      (steps_gets _).bind fun _ => steps_dac_start 0 _ hc (by decide)
    refine (keeps_modify fun d => .conversion (.inl rfl) d.adc.driver _ d.adc.mCurrentBufferSize
      d.adc.mOperation d.adc.nextFull d.trace).bind fun _ => ?_
    refine (keeps_modify fun d => .conversion (.inl rfl) d.adc.driver d.adc.mCurrentBuffer _
      d.adc.mOperation d.adc.nextFull d.trace).bind fun _ => ?_
    refine (keeps_modify fun d => .conversion (.inl rfl) d.adc.driver d.adc.mCurrentBuffer
      d.adc.mCurrentBufferSize _ d.adc.nextFull d.trace).bind fun _ => ?_
    exact Keeps.bind (keeps_guarded (fun d => .stream d.input _) fun d _ =>
      .conversion (.inl rfl) _ d.adc.mCurrentBuffer d.adc.mCurrentBufferSize d.adc.mOperation _ _)
      fun _ => steps_sclock_start hc
  · trivial

theorem steps_stopConversion : Keeps (HandlerStep 'S'.toUInt8) stopConversion := by
  have hc : convertsWith 'S'.toUInt8 := by simp [convertsWith, converterCommands]
  refine (steps_assert _ _).bind fun running => ?_
  split
  · refine ((steps_dac_stop _ hc).bind fun _ => (steps_sclock_stop hc).bind fun _ => ?_).bind fun _ =>
      keeps_modify fun _ => .status (.inr rfl) _
    refine Keeps.bind (keeps_guarded (fun _ => .same) fun d _ => .conversion (.inr rfl) _
      d.adc.mCurrentBuffer d.adc.mCurrentBufferSize d.adc.mOperation d.adc.nextFull d.trace) fun _ => ?_
    refine (keeps_modify fun d => .conversion (.inr rfl) d.adc.driver _ d.adc.mCurrentBufferSize
      d.adc.mOperation d.adc.nextFull d.trace).bind fun _ => ?_
    refine (keeps_modify fun d => .conversion (.inr rfl) d.adc.driver d.adc.mCurrentBuffer _
      d.adc.mOperation d.adc.nextFull d.trace).bind fun _ => ?_
    exact keeps_modify fun d => .conversion (.inr rfl) d.adc.driver d.adc.mCurrentBuffer
      d.adc.mCurrentBufferSize _ d.adc.nextFull d.trace
  · trivial

theorem steps_sampleRate : Keeps (HandlerStep 'r'.toUInt8) sampleRate := by
  refine (steps_read _).bind fun bytes => (steps_assert _ _).bind fun ok => ?_
  split
  · dsimp only
    split
    · exact (steps_gets _).bind fun _ => steps_write _
    · exact (keeps_modify fun _ => .divider rfl _ _).bind fun _ => keeps_modify fun _ => .preset rfl _ _
  · trivial

theorem steps_readConversionResults : Keeps (HandlerStep 's'.toUInt8) readConversionResults :=
  steps_sendModified _ _ fun _ => .outMark rfl

theorem steps_readConversionInput : Keeps (HandlerStep 't'.toUInt8) readConversionInput :=
  steps_sendModified _ _ fun _ => .inMark rfl

/-- The handler of every byte steps as `HandlerStep` says. -/
theorem steps_dispatch (c : UInt8) : Keeps (HandlerStep c) (dispatch c) := by
  refine dispatch_induction c ?_ trivial
  intro x hx hc
  subst hc
  simp only [commandTable, List.mem_cons, List.not_mem_nil, or_false] at hx
  rcases hx with rfl | rfl | rfl | rfl | rfl | rfl | rfl | rfl | rfl | rfl | rfl | rfl | rfl | rfl |
    rfl | rfl | rfl | rfl | rfl
  · exact steps_writeADCBuffer
  · exact steps_setBufferSize
  · exact steps_updateGenerator
  · exact steps_loadAlgorithm
  · exact (steps_gets _).bind fun _ => (keeps_act fun _ => .error _).bind fun _ => steps_write _
  · exact steps_measureConversion
  · exact steps_startConversion
  · exact steps_stopConversion
  · exact (steps_gets _).bind fun _ =>
      steps_dac_start 1 _ (by simp [convertsWith, converterCommands]) fun _ => rfl
  · exact steps_write _
  · exact steps_write _
  · exact keeps_modify fun _ => .entry (.inr rfl) 0
  · exact steps_write _
  · exact steps_write _
  · exact steps_sampleRate
  · exact steps_readConversionResults
  · exact steps_readConversionInput
  · trivial
  · exact steps_dac_stop 1 (by simp [convertsWith, converterCommands])

/-- What all steps of a handler satisfy, a pass of the loop that runs this handler does. -/
theorem rel_of_pass {R : Device → Device → Prop} {d d' : Device} (hrefl : ∀ d, R d d)
    (htrans : ∀ a b c, R a b → R b c → R a c)
    (hstep : ∀ c, nextCommand d = some c → ∀ s s', HandlerStep c s s' → R s s')
    (h : CommunicationManager.threadComm.run d = .ok () d') : R d d' := by
  rw [threadComm_run] at h
  cases hin : d.input with
  | nil =>
    rw [hin] at h
    cases h
    exact hrefl d
  | cons c rest =>
    rw [hin] at h
    have hc := hstep c (nextCommand_cons hin)
    have hhandler := ((steps_dispatch c).mono hc).run hrefl htrans (received d c rest)
    rw [show (dispatch c).run (received d c rest) = .ok () d' from h] at hhandler
    exact htrans _ _ _ (hc _ _ (.stream rest _)) hhandler

/-- What none of them changes is as it was when the pass ends. -/
theorem view_of_pass {τ : Type} {view : Device → τ} {d d' : Device}
    (hstep : ∀ c, nextCommand d = some c → ∀ s s', HandlerStep c s s' → view s' = view s)
    (h : CommunicationManager.threadComm.run d = .ok () d') : view d' = view d :=
  rel_of_pass (R := fun s s' => view s' = view s) (fun _ => rfl) (fun _ _ _ hab hbc => hbc.trans hab)
    hstep h

end Stmdsp
