import Stmdsp.Model.CommandRun

/-! Runs of host commands and completed conversions: the runner's store of its results
into `Out` is one step. -/

namespace Stmdsp

inductive ResultAct where
  | host (bytes : List UInt8)
  | comm
  /-- A conversion of the first or the second half ends with the block `data`. -/
  | convert (first : Bool) (data : Source)
  | env

/-- `modify` or `midmodify` with the half of a buffer of `size` samples. -/
def SampleBuffer.stored (first : Bool) (data : Source) (size : ℕ) (b : SampleBuffer) :
    SampleBuffer :=
  if first then b.modify data (size / 2) else b.midmodify data (size / 2)

/-- One step. Everything else that happens leaves the mark of `Out` alone. -/
def ResultStep (d : Device) : ResultAct → Device → Prop
  | .host bytes, d' => d' = { d with input := d.input ++ bytes }
  | .comm, d' => CommunicationManager.threadComm.run d = .ok () d'
  | .convert first data, d' => d' = { d with Out := d.Out.stored first data d.In.mSize }
  | .env, d' => Rely d d' ∧ d'.Out.mModified = d.Out.mModified

section Step

variable {d d' : Device}

theorem resultStep_host (bytes : List UInt8) :
    ResultStep d (.host bytes) { d with input := d.input ++ bytes } :=
  rfl

theorem resultStep_pass (h : CommunicationManager.threadComm.run d = .ok () d') :
    ResultStep d .comm d' :=
  h

theorem resultStep_convert (first : Bool) (data : Source) :
    ResultStep d (.convert first data) { d with Out := d.Out.stored first data d.In.mSize } :=
  rfl

end Step

abbrev ResultRun (b : Board) := Run ResultStep (powerUp b)

/-- Executes a sequence of steps, with an environment that stays quiet. -/
def execResults (d : Device) : List ResultAct → Option Device
  | [] => some d
  | .host bytes :: acts => execResults { d with input := d.input ++ bytes } acts
  | .comm :: acts =>
    match CommunicationManager.threadComm.run d with
    | .ok _ d' => execResults d' acts
    | _ => none
  | .convert first data :: acts =>
    execResults { d with Out := d.Out.stored first data d.In.mSize } acts
  | .env :: acts => execResults d acts

theorem run_of_execResults {d' : Device} (d : Device) (acts : List ResultAct)
    (h : execResults d acts = some d') : ∃ tr, Run ResultStep d tr d' ∧ tr.map Prod.snd = acts := by
  induction acts generalizing d with
  | nil =>
    obtain rfl := Option.some.inj h
    exact ⟨[], .nil, rfl⟩
  | cons a acts ih =>
    have hstep : ∃ t, ResultStep d a t ∧ execResults t acts = some d' := by
      cases a with
      | host bytes => exact ⟨_, resultStep_host bytes, h⟩
      | comm =>
        simp only [execResults] at h
        split at h
        · rename_i u t hrun
          exact ⟨t, resultStep_pass hrun, h⟩
        · simp at h
      | convert first data => exact ⟨_, resultStep_convert first data, h⟩
      | env => exact ⟨d, ⟨Rely.refl d, rfl⟩, h⟩
    obtain ⟨t, hs, ht⟩ := hstep
    obtain ⟨tr, hr, hacts⟩ := ih t ht
    exact ⟨_, (Run.single hs).append hr, by simp [hacts]⟩

end Stmdsp
