import Stmdsp.Model.CommandRun

/-! Runs of the command thread in which the environment is held to all it leaves alone:
the marks only ever move to the start of a half, and tables, the file buffer's address
and the ADC's clock preset stay as they are. -/

namespace Stmdsp

/-- A mark is left as it is or set by `setModified` or `setMidmodified`. -/
def SampleBuffer.Marked (b b' : SampleBuffer) : Prop :=
  b'.mModified = b.mModified ∨ b'.mModified = b.setModified.mModified ∨
    b'.mModified = b.setMidmodified.mModified

/-- What interrupts, the monitor thread and the runner leave alone besides `Rely`. -/
structure Fixed (d d' : Device) : Prop where
  inMark : d.In.Marked d'.In
  outMark : d.Out.Marked d'.Out
  preset : d'.adc.preset = d.adc.preset
  mFileBuffer : d'.mFileBuffer = d.mFileBuffer
  pastRateDivs : d'.pastRateDivs = d.pastRateDivs
  pastPresets : d'.pastPresets = d.pastPresets

theorem Fixed.refl (d : Device) : Fixed d d := ⟨.inl rfl, .inl rfl, rfl, rfl, rfl, rfl⟩

structure Env (d d' : Device) : Prop extends Rely d d', Fixed d d'

theorem Env.refl (d : Device) : Env d d := { Rely.refl d, Fixed.refl d with }

def HostStep (d : Device) : CommAct → Device → Prop
  | .env, d' => Env d d'
  | a, d' => CommStep d a d'

theorem HostStep.commStep {d d' : Device} {a : CommAct} (h : HostStep d a d') : CommStep d a d' := by
  cases a with
  | env => exact h.toRely
  | _ => exact h

theorem hostStep_pass {d d' : Device} (h : CommunicationManager.threadComm.run d = .ok () d') :
    HostStep d .comm d' :=
  h

abbrev HostRun (b : Board) := Run HostStep (powerUp b)

theorem HostRun.commRun {b : Board} {tr : List (Device × CommAct)} {d : Device}
    (h : HostRun b tr d) : CommRun b tr d :=
  h.mono fun _ _ _ => HostStep.commStep

end Stmdsp
