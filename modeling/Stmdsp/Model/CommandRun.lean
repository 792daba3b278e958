import Stmdsp.Lib.Run
import Stmdsp.Model.Communication

/-! Runs of the command thread from power-up: the host sends bytes, the thread
makes one pass of its loop, and in between the interrupts and the conversion
threads do what they may do to the shared state. -/

namespace Stmdsp

/-- What the linker, the kernel and uninitialised memory fix before `main`. -/
structure Board where
  fileBuffer : UInt32
  mem : Memory
  sram : Fin 3 → Storage
  tmOffset : UInt32
  pastRateDivs : ℕ → UInt32
  pastPresets : ℕ → Preset

instance : Inhabited Board :=
  ⟨⟨0x20001000, fun _ => 0, fun _ _ => 0, 0, fun _ => 0, fun _ => (0, 0, 0)⟩⟩

def SampleBuffer.init (mem : Storage) : SampleBuffer :=
  ⟨mem, MAX_SAMPLE_BUFFER_SIZE, none, le_rfl⟩

/-- The state in which `main` starts the threads: drivers ready, the rate set to
`R32K`, nothing received yet. -/
def powerUp (b : Board) : Device where
  runStatus := .Idle
  em := ⟨[], Nat.zero_le _⟩
  In := .init (b.sram 0)
  Out := .init (b.sram 1)
  Generator := .init (b.sram 2)
  sclock := ⟨rateDivs.getD R32K 0, 0, none⟩
  adc := ⟨⟨.READY, 0⟩, none, 0, none, ADC.ratePresets.getD R32K (0, 0, 0), false, 0⟩
  dac := fun _ => ⟨.READY, 0⟩
  dacIsDone := -1
  mMailbox := .init
  mEntry := 0
  mFileBuffer := b.fileBuffer
  mem := b.mem
  tmLast := 0
  tmOffset := b.tmOffset
  pastRateDivs := b.pastRateDivs
  pastPresets := b.pastPresets
  input := []
  trace := []
  conv := []

/-- What interrupts, the monitor thread and the runner leave alone. They write
samples, marks, messages, errors and algorithm memory; `mOperation` they only
exchange for the other handler, and only while the ADC is active. -/
structure Rely (d d' : Device) : Prop where
  runStatus : d'.runStatus = d.runStatus
  sclock : d'.sclock = d.sclock
  adcDriver : d'.adc.driver = d.adc.driver
  currentBuffer : d'.adc.mCurrentBuffer = d.adc.mCurrentBuffer
  currentBufferSize : d'.adc.mCurrentBufferSize = d.adc.mCurrentBufferSize
  operation : d'.adc.mOperation = none ↔ d.adc.mOperation = none
  dac : d'.dac = d.dac
  inSize : d'.In.mSize = d.In.mSize
  outSize : d'.Out.mSize = d.Out.mSize
  generatorSize : d'.Generator.mSize = d.Generator.mSize
  input : d'.input = d.input
  trace : d'.trace = d.trace

theorem Rely.refl (d : Device) : Rely d d :=
  ⟨rfl, rfl, rfl, rfl, rfl, Iff.rfl, rfl, rfl, rfl, rfl, rfl, rfl⟩

theorem Rely.trans {a b c : Device} (h : Rely a b) (k : Rely b c) : Rely a c where
  runStatus := k.runStatus.trans h.runStatus
  sclock := k.sclock.trans h.sclock
  adcDriver := k.adcDriver.trans h.adcDriver
  currentBuffer := k.currentBuffer.trans h.currentBuffer
  currentBufferSize := k.currentBufferSize.trans h.currentBufferSize
  operation := k.operation.trans h.operation
  dac := k.dac.trans h.dac
  inSize := k.inSize.trans h.inSize
  outSize := k.outSize.trans h.outSize
  generatorSize := k.generatorSize.trans h.generatorSize
  input := k.input.trans h.input
  trace := k.trace.trans h.trace

inductive CommAct where
  | host (bytes : List UInt8)
  | comm
  | env

/-- One step of a command run. A pass of the loop that halts or waits for the
host for ever is no step. -/
def CommStep (d : Device) : CommAct → Device → Prop
  | .host bytes, d' => d' = { d with input := d.input ++ bytes }
  | .comm, d' => CommunicationManager.threadComm.run d = .ok () d'
  | .env, d' => Rely d d'

abbrev CommRun (b : Board) := Run CommStep (powerUp b)

/-- The command byte the next pass of the loop dispatches, if any. -/
def nextCommand (d : Device) : Option UInt8 := d.input.head?

theorem nextCommand_cons {d : Device} {c : UInt8} {rest : List UInt8} (h : d.input = c :: rest) :
    nextCommand d = some c := by
  rw [nextCommand, h, List.head?_cons]

theorem input_of_nextCommand {d : Device} {c : UInt8} (h : nextCommand d = some c) :
    ∃ rest, d.input = c :: rest :=
  ⟨d.input.tail, (List.cons_head?_tail h).symm⟩

/-- Executes a sequence of steps, with an environment that stays quiet. -/
def execActs (d : Device) : List CommAct → Option Device
  | [] => some d
  | .host bytes :: acts => execActs { d with input := d.input ++ bytes } acts
  | .comm :: acts =>
    match CommunicationManager.threadComm.run d with
    | .ok _ d' => execActs d' acts
    | _ => none
  | .env :: acts => execActs d acts

/-- Such a sequence is a run of every relation that has these steps. -/
theorem run_of_acts {step : Device → CommAct → Device → Prop} {d' : Device}
    (hhost : ∀ d bytes, step d (.host bytes) { d with input := d.input ++ bytes })
    (hcomm : ∀ d t, CommunicationManager.threadComm.run d = .ok () t → step d .comm t)
    (henv : ∀ d, step d .env d) (d : Device) (acts : List CommAct)
    (h : execActs d acts = some d') : ∃ tr, Run step d tr d' ∧ tr.map Prod.snd = acts := by
  induction acts generalizing d with
  | nil =>
    obtain rfl := Option.some.inj h
    exact ⟨[], .nil, rfl⟩
  | cons a acts ih =>
    have hstep : ∃ t, step d a t ∧ execActs t acts = some d' := by
      cases a with
      | host bytes => exact ⟨_, hhost d bytes, h⟩
      | comm =>
        simp only [execActs] at h
        split at h
        · rename_i u t hrun
          exact ⟨t, hcomm d t hrun, h⟩
        · simp at h
      | env => exact ⟨d, henv d, h⟩
    obtain ⟨t, hs, ht⟩ := hstep
    obtain ⟨tr, hr, hacts⟩ := ih t ht
    exact ⟨_, (Run.single hs).append hr, by simp [hacts]⟩

theorem run_of_execActs {d' : Device} (d : Device) (acts : List CommAct)
    (h : execActs d acts = some d') : ∃ tr, Run CommStep d tr d' ∧ tr.map Prod.snd = acts :=
  run_of_acts (fun _ _ => rfl) (fun _ _ h => h) Rely.refl d acts h

/-- The device as the handler of command `c` finds it. -/
def received (d : Device) (c : UInt8) (rest : List UInt8) : Device :=
  ({ d.logCall (.read 1) with input := rest }).logCall (.command c)

/-- A pass of the loop takes one byte off the stream and runs its handler. -/
theorem threadComm_run (d : Device) :
    CommunicationManager.threadComm.run d =
      match d.input with
      | [] => .ok () d
      | c :: rest => (dispatch c).run (received d c rest) := by
  unfold CommunicationManager.threadComm CommunicationManager.receiveCommand
  cases h : d.input with
  | nil => simp [Proc.run_bind, h, Proc.gets, Proc.act, Proc.run]
  | cons c rest =>
    simp [Proc.run_bind, h, Proc.gets, Proc.act, Proc.run, USBSerial.read, Proc.guarded,
      Device.logCall, Proc.modify, received]

end Stmdsp
