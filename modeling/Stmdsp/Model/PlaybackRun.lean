import Stmdsp.Model.CommandRun

/-! Runs of the command thread with the generator's DMA stream: it plays the two halves of
`Generator` in turn and interrupts at the end of each, from the first half on after every
start. -/

namespace Stmdsp

structure Playback where
  dev : Device
  /-- The second half is being played: the next event completes the buffer. -/
  nextFull : Bool

inductive PlaybackAct where
  | host (bytes : List UInt8)
  | comm
  /-- A half-complete or complete event of DAC channel 1. -/
  | dac
  | env

/-- One step. Everything else that happens leaves the callback's flag alone. -/
def PlaybackStep (s : Playback) : PlaybackAct → Playback → Prop
  | .host bytes, s' => s' = { s with dev := { s.dev with input := s.dev.input ++ bytes } }
  | .comm, s' => CommunicationManager.threadComm.run s.dev = .ok () s'.dev ∧
      s'.nextFull = if nextCommand s.dev = some 'W'.toUInt8 then false else s.nextFull
  | .dac, s' => DAC.isSigGenRunning s.dev = true ∧
      s' = ⟨dacEndCallback s.nextFull s.dev, !s.nextFull⟩
  | .env, s' => Rely s.dev s'.dev ∧ s'.dev.dacIsDone = s.dev.dacIsDone ∧ s'.nextFull = s.nextFull

theorem playbackStep_host (s : Playback) (bytes : List UInt8) :
    PlaybackStep s (.host bytes) { s with dev := { s.dev with input := s.dev.input ++ bytes } } :=
  rfl

theorem playbackStep_pass {s : Playback} {d : Device}
    (h : CommunicationManager.threadComm.run s.dev = .ok () d) :
    PlaybackStep s .comm ⟨d, if nextCommand s.dev = some 'W'.toUInt8 then false else s.nextFull⟩ :=
  ⟨h, rfl⟩

theorem playbackStep_dac {s : Playback} (h : DAC.isSigGenRunning s.dev = true) :
    PlaybackStep s .dac ⟨dacEndCallback s.nextFull s.dev, !s.nextFull⟩ :=
  ⟨h, rfl⟩

abbrev PlaybackRun (b : Board) := Run PlaybackStep ⟨powerUp b, false⟩

end Stmdsp
