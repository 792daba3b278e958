import Stmdsp.Proofs.Converters

/-! The handlers that take parameters, as equations over whole runs: which bytes
each consumes and what it leaves, branch by branch. -/

namespace Stmdsp

open Proc

/-- A guard that failed with `e`. -/
def Device.rejected (e : Error) (d : Device) : Device := { d with em := d.em.add e }

@[simp] theorem Device.rejected_input (e : Error) (d : Device) : (d.rejected e).input = d.input := rfl

theorem writeADCBuffer_run (d : Device) :
    writeADCBuffer.run d =
      if 0 < d.In.bytesize then
        .ok () { d.afterRead d.In.bytesize with
          In := d.In.withStorage (storeBytes d.In.mBuffer 0 (d.input.take d.In.bytesize)) }
      else .halted (d.logCall (.read d.In.bytesize)) := by
  simp only [writeADCBuffer, bind_eq, run_gets_bind, run_read_bind, run_modify]
  rfl

/-- The size a 'B' asks for. -/
def Device.sizeParam (d : Device) : ℕ := param16 (d.input.take 2)

theorem setBufferSize_run (d : Device) :
    setBufferSize.run d =
      if d.runStatus = .Idle then
        if (d.input.take 2).length = 2 then
          if d.sizeParam * 2 ≤ MAX_SAMPLE_BUFFER_SIZE then
            .ok () { d.afterRead 2 with
              In := d.In.setSize (d.sizeParam * 2)
              Out := d.Out.setSize (d.sizeParam * 2) }
          else .ok () ((d.afterRead 2).rejected .BadParam)
        else .ok () ((d.afterRead 2).rejected .BadParamSize)
      else .ok () (d.rejected .NotIdle) := by
  simp only [setBufferSize, bind_eq, run_assert_bind, run_read_bind, Nat.zero_lt_two, if_true,
    beq_iff_eq, decide_eq_true_eq, run_modify_bind, run_modify]
  rfl

/-- `updateGenerator` once its count is accepted. -/
def generatorTransfer (count : ℕ) (d : Device) : Outcome Device Unit :=
  if DAC.isSigGenRunning d then
    let d' := if d.dacIsDone = -1 then d else { d with dacIsDone := -1 }
    if d.dacIsDone = -1 then .ok () (d'.logCall (.write [0]))
    else
      let d' := d'.logCall (.write [1])
      let half := if d.dacIsDone = 0 then d.Generator.data else d.Generator.middata
      let size := d.Generator.bytesize / 2
      if 0 < size then
        .ok () { d'.afterRead size with
          Generator := d.Generator.withStorage
            (storeBytes d.Generator.mBuffer (2 * half) (d.input.take size)) }
      else .halted (d'.logCall (.read size))
  else
    let b := d.Generator.setSize count
    if 0 < b.bytesize then
      .ok () { d.afterRead b.bytesize with
        Generator := b.withStorage (storeBytes b.mBuffer 0 (d.input.take b.bytesize)) }
    else .halted { d.logCall (.read b.bytesize) with Generator := b }

theorem sigGenWantsMore_run (d : Device) :
    DAC.sigGenWantsMore.run d =
      .ok d.dacIsDone (if d.dacIsDone = -1 then d else { d with dacIsDone := -1 }) := by
  by_cases h : d.dacIsDone = -1 <;> simp [DAC.sigGenWantsMore, h]

theorem generatorTransfer_stopped {count : ℕ} {d : Device} (h : DAC.isSigGenRunning d = false)
    (hpos : 0 < count) (hfits : count ≤ MAX_SAMPLE_BUFFER_SIZE) :
    (generatorTransfer count d).state.input = d.input.drop (2 * count) := by
  have hsize : (d.Generator.setSize count).bytesize = 2 * count := by
    simp only [SampleBuffer.bytesize, SampleBuffer.setSize]
    split <;> omega
  simp only [generatorTransfer, h, Bool.false_eq_true, if_false, hsize]
  rw [if_pos (by omega)]
  rfl

theorem updateGenerator_run (d : Device) :
    updateGenerator.run d =
      if (d.input.take 2).length = 2 then
        if d.sizeParam ≤ MAX_SAMPLE_BUFFER_SIZE then generatorTransfer d.sizeParam (d.afterRead 2)
        else .ok () ((d.afterRead 2).rejected .BadParam)
      else .ok () ((d.afterRead 2).rejected .BadParamSize) := by
  simp only [updateGenerator, bind_eq, run_assert_bind, run_read_bind, Nat.zero_lt_two, if_true,
    beq_iff_eq, decide_eq_true_eq, run_gets_bind, generatorTransfer]
  refine if_congr Iff.rfl (if_congr Iff.rfl ?_ rfl) rfl
  cases hrun : DAC.isSigGenRunning (d.afterRead 2) with
  | false =>
    simp only [Bool.not_false, if_true, run_modify_bind, run_gets_bind, run_read_bind, run_modify,
      Bool.false_eq_true, if_false]
    rfl
  | true =>
    simp only [Bool.not_true, Bool.false_eq_true, if_false, if_true]
    rw [run_bind, sigGenWantsMore_run]
    by_cases hmore : (d.afterRead 2).dacIsDone = -1
    · simp [hmore]
    · simp only [hmore, if_false, run_write_bind, List.isEmpty_cons, Bool.false_eq_true,
        run_gets_bind, run_read_bind, run_modify]
      rfl

/-- The rest of `loadAlgorithm` once the payload is read. -/
def loadPayload (bytes : List UInt8) : Fw Unit := do
  Proc.modify fun d => { d with mem := Memory.store d.mem d.mFileBuffer bytes }
  let success ← ELFManager.loadFromInternalBuffer
  let _ ← EM.assert (fun _ => success) .BadUserCodeLoad

theorem host_loadPayload (bytes : List UInt8) : Keeps SameHost (loadPayload bytes) :=
  (keeps_modify fun _ => ⟨rfl⟩).bind fun _ => host_loadFromInternalBuffer.bind fun _ =>
    (host_assert _ _).bind fun _ => trivial

theorem loadAlgorithm_run (d : Device) :
    loadAlgorithm.run d =
      if d.runStatus = .Idle then
        if (d.input.take 2).length = 2 then
          if d.sizeParam < MAX_ELF_FILE_SIZE then
            ((USBSerial.read d.sizeParam).bind loadPayload).run (d.afterRead 2)
          else .ok () ((d.afterRead 2).rejected .BadUserCodeSize)
        else .ok () ((d.afterRead 2).rejected .BadParamSize)
      else .ok () (d.rejected .NotIdle) := by
  simp only [loadAlgorithm, bind_eq, run_assert_bind, USBSerial.read, run_guarded_bind,
    Nat.zero_lt_two, decide_true, if_true, beq_iff_eq, decide_eq_true_eq]
  rfl

/-- What 'r' does with its byte. -/
def applyRate (bytes : List UInt8) : Fw Unit := do
  if ← EM.assert (fun _ => bytes.length == 1) .BadParamSize then
    let r := bytes.getD 0 0
    if r = 0xFF then
      let r ← Proc.gets SClock.getRate
      USBSerial.write fun _ => [r.toUInt8]
    else
      SClock.setRate r.toNat
      ADC.setRate r.toNat

theorem sampleRate_eq : sampleRate = (USBSerial.read 1).bind applyRate := rfl

theorem host_applyRate (bytes : List UInt8) : Keeps SameHost (applyRate bytes) := by
  refine (host_assert _ _).bind fun ok => ?_
  split
  · dsimp only
    split
    · exact (keeps_gets fun _ => ⟨rfl⟩).bind fun _ => host_write _
    · exact (keeps_modify fun _ => ⟨rfl⟩).bind fun _ => keeps_modify fun _ => ⟨rfl⟩
  · trivial

end Stmdsp
