import Stmdsp.Lib.Since
import Stmdsp.Model.PlaybackRun
import Stmdsp.Proofs.Clock
import Stmdsp.Proofs.HandlerSteps
import Stmdsp.Proofs.Replies

/-! Streaming into a running generator. One flag tells the command thread both that a half
has been played and which one; each chunk the host may send answers an event of its own,
and fills the half that event has reported. -/

namespace Stmdsp

open Proc

/-! ### Passes -/

/-- The next pass accepts a 'D' while the generator runs. -/
def AcceptsChunk (d : Device) : Prop :=
  nextCommand d = some 'D'.toUInt8 ∧ (d.input.tail.take 2).length = 2 ∧
    param16 (d.input.tail.take 2) ≤ MAX_SAMPLE_BUFFER_SIZE ∧ DAC.isSigGenRunning d = true

/-- The next pass writes the byte `x` right after it has read a 'D' and its parameter. -/
def RepliesWith (x : UInt8) (d : Device) : Prop :=
  ∃ calls, (CommunicationManager.threadComm.run d).state.trace =
    d.trace ++ [.read 1, .command 'D'.toUInt8, .read 2, .write [x]] ++ calls

/-- The sample a half of the buffer starts at. -/
def SampleBuffer.half (full : Bool) (b : SampleBuffer) : ℕ := if full then b.middata else b.data

/-- The chunk is in that half, and all other samples are as they were. -/
structure ChunkStored (full : Bool) (chunk : List UInt8) (b b' : SampleBuffer) : Prop where
  size : b'.mSize = b.mSize
  length : chunk.length ≤ 2 * (b.mSize / 2)
  inside : ∀ i, 2 * i + 1 < chunk.length →
    b'.mBuffer (b.half full + i) = ofBytes (chunk.getD (2 * i) 0) (chunk.getD (2 * i + 1) 0)
  outside : ∀ i, i < b.half full ∨ b.half full + b.mSize / 2 ≤ i → b'.mBuffer i = b.mBuffer i

/-- The guards of `updateGenerator`, as the handler finds them. -/
def ChunkGuards (d : Device) : Prop :=
  (d.input.take 2).length = 2 ∧ d.sizeParam ≤ MAX_SAMPLE_BUFFER_SIZE ∧
    DAC.isSigGenRunning d = true

/-- The device after the reply `x`. -/
def Device.replied (x : UInt8) (d : Device) : Device := (d.afterRead 2).logCall (.write [x])

section Pass

variable {d d' : Device} {rest : List UInt8}

theorem acceptsChunk_iff (hin : d.input = 'D'.toUInt8 :: rest) :
    AcceptsChunk d ↔ ChunkGuards (received d 'D'.toUInt8 rest) := by
  rw [AcceptsChunk, nextCommand, hin]
  exact and_iff_right rfl

theorem generatorTransfer_idle {count : ℕ} (hrun : ¬ DAC.isSigGenRunning d = true)
    (h : generatorTransfer count d = .ok () d') : d'.dacIsDone = d.dacIsDone := by
  rw [generatorTransfer, if_neg hrun] at h
  dsimp only at h
  split at h
  · cases h
    rfl
  · simp at h

theorem generatorTransfer_declined (count : ℕ) (hrun : DAC.isSigGenRunning d = true)
    (hflag : d.dacIsDone = -1) : generatorTransfer count d = .ok () (d.logCall (.write [0])) := by
  rw [generatorTransfer, if_pos hrun]
  dsimp only
  rw [if_pos hflag, if_pos hflag]

theorem generatorTransfer_granted (count : ℕ) (hrun : DAC.isSigGenRunning d = true)
    (hflag : d.dacIsDone ≠ -1) (hsize : 0 < d.Generator.mSize) :
    generatorTransfer count d = .ok () { (d.logCall (.write [1])).afterRead d.Generator.mSize with
      dacIsDone := -1
      Generator := d.Generator.withStorage (storeBytes d.Generator.mBuffer
        (2 * d.Generator.half (decide (d.dacIsDone ≠ 0))) (d.input.take d.Generator.mSize)) } := by
  have hbytes : d.Generator.bytesize / 2 = d.Generator.mSize := Nat.mul_div_cancel _ Nat.two_pos
  have hhalf : (if d.dacIsDone = 0 then d.Generator.data else d.Generator.middata) =
      d.Generator.half (decide (d.dacIsDone ≠ 0)) := by
    by_cases hzero : d.dacIsDone = 0
    · simp [SampleBuffer.half, hzero]
    · simp [SampleBuffer.half, hzero]
  rw [generatorTransfer, if_pos hrun]
  dsimp only
  rw [if_neg hflag, if_neg hflag, hbytes, if_pos hsize, hhalf]
  rfl

theorem updateGenerator_other (hg : ¬ ChunkGuards d) (h : updateGenerator.run d = .ok () d') :
    d'.dacIsDone = d.dacIsDone ∧ (DAC.isSigGenRunning d = true → d'.Generator = d.Generator) := by
  rw [updateGenerator_run] at h
  split at h
  swap
  · cases h
    exact ⟨rfl, fun _ => rfl⟩
  rename_i htwo
  split at h
  swap
  · cases h
    exact ⟨rfl, fun _ => rfl⟩
  rename_i hfits
  have hstop : ¬ DAC.isSigGenRunning d = true := fun hrun => hg ⟨htwo, hfits, hrun⟩
  exact ⟨generatorTransfer_idle (d := d.afterRead 2) hstop h, fun hrun => absurd hrun hstop⟩

theorem updateGenerator_declined (hg : ChunkGuards d) (hflag : d.dacIsDone = -1) :
    updateGenerator.run d = .ok () (d.replied 0) := by
  obtain ⟨htwo, hfits, hrun⟩ := hg
  rw [updateGenerator_run, if_pos htwo, if_pos hfits]
  exact generatorTransfer_declined (d := d.afterRead 2) _ hrun hflag

theorem updateGenerator_granted (hg : ChunkGuards d) (hflag : d.dacIsDone ≠ -1)
    (hsize : 0 < d.Generator.mSize) :
    updateGenerator.run d = .ok () { (d.replied 1).afterRead d.Generator.mSize with
      dacIsDone := -1
      Generator := d.Generator.withStorage (storeBytes d.Generator.mBuffer
        (2 * d.Generator.half (decide (d.dacIsDone ≠ 0)))
        ((d.input.drop 2).take d.Generator.mSize)) } := by
  obtain ⟨htwo, hfits, hrun⟩ := hg
  rw [updateGenerator_run, if_pos htwo, if_pos hfits]
  exact generatorTransfer_granted (d := d.afterRead 2) _ hrun hflag hsize

/-- A chunk of at most half the buffer stays in its half. -/
theorem chunkStored_store {b : SampleBuffer} (full : Bool) {chunk : List UInt8}
    (hlen : chunk.length ≤ b.mSize) (heven : b.mSize % 2 = 0) :
    ChunkStored full chunk b (b.withStorage (storeBytes b.mBuffer (2 * b.half full) chunk)) := by
  refine ⟨rfl, by omega, fun i hi => ?_, fun i hi => ?_⟩
  · have hin : 2 * b.half full ≤ 2 * (b.half full + i) + 1 ∧
        2 * (b.half full + i) < 2 * b.half full + chunk.length := by omega
    have hlo : 2 * (b.half full + i) - 2 * b.half full = 2 * i := by omega
    have hhi : 2 * (b.half full + i) + 1 - 2 * b.half full = 2 * i + 1 := by omega
    simp only [SampleBuffer.withStorage, storeBytes, if_pos hin]
    rw [if_pos (by omega), if_pos (by omega), hlo, hhi]
  · have hout : ¬ (2 * b.half full ≤ 2 * i + 1 ∧ 2 * i < 2 * b.half full + chunk.length) := by omega
    simp only [SampleBuffer.withStorage, storeBytes, if_neg hout]

/-! ### The flag and the generator over one pass -/

def generatorState (d : Device) : ℤ × SampleBuffer := (d.dacIsDone, d.Generator)

theorem generatorState_step {c : UInt8} (hD : c ≠ 'D'.toUInt8) (hW : c ≠ 'W'.toUInt8)
    (d d' : Device) (h : HandlerStep c d d') : generatorState d' = generatorState d := by
  cases h with
  | generatorSize hc => exact absurd hc hD
  | generatorSamples hc => exact absurd hc hD
  | taken hc => exact absurd hc (not_or.mpr ⟨hD, hW⟩)
  | _ => rfl

/-- The two commands of the conversion leave the generator's channel alone. -/
theorem startConversion_channel (h : startConversion.run d = .ok () d') : d'.dac 1 = d.dac 1 := by
  by_cases hidle : d.runStatus = .Idle
  · obtain ⟨-, -, -, c₁, c₂, -, -, rfl⟩ := startConversion_ok hidle h
    rfl
  · rw [startConversion_rejected hidle] at h
    cases h
    rfl

theorem stopConversion_channel (h : stopConversion.run d = .ok () d') : d'.dac 1 = d.dac 1 := by
  by_cases hrun : d.runStatus = .Running
  · obtain ⟨-, -, rfl⟩ := stopConversion_ok hrun h
    rfl
  · rw [stopConversion_rejected hrun] at h
    cases h
    rfl

theorem stopGenerator_stops (h : stopGenerator.run d = .ok () d') :
    DAC.isSigGenRunning d' = false := by
  rw [stopGenerator, dac_stop_run] at h
  split at h
  · cases h
    simp [DAC.isSigGenRunning]
  · simp at h

/-- Only a 'W' starts the generator. -/
theorem pass_running (hW : nextCommand d ≠ some 'W'.toUInt8)
    (h : CommunicationManager.threadComm.run d = .ok () d')
    (hrun : DAC.isSigGenRunning d' = true) : DAC.isSigGenRunning d = true := by
  have hchannel : d'.dac 1 = d.dac 1 → DAC.isSigGenRunning d = true := by
    intro hdac
    rwa [DAC.isSigGenRunning, hdac] at hrun
  rw [threadComm_run] at h
  cases hin : d.input with
  | nil =>
    rw [hin] at h
    cases h
    exact hrun
  | cons c rest =>
    rw [hin] at h
    have hcW : c ≠ 'W'.toUInt8 := fun hc => hW (hc ▸ nextCommand_cons hin)
    by_cases hc : c ∈ converterCommands
    · simp only [converterCommands, List.mem_cons, List.not_mem_nil, or_false] at hc
      rcases hc with rfl | rfl | rfl | rfl
      · exact hchannel (startConversion_channel (d := received d 'R'.toUInt8 rest) h)
      · exact hchannel (stopConversion_channel (d := received d 'S'.toUInt8 rest) h)
      · exact absurd rfl hcW
      · rw [stopGenerator_stops (d := received d 'w'.toUInt8 rest) h] at hrun
        simp at hrun
    · have hleaves := (converters_dispatch hc).run Leaves.refl Leaves.trans (received d c rest)
      rw [show (dispatch c).run (received d c rest) = .ok () d' from h] at hleaves
      exact hchannel (congrFun (congrArg ConverterView.dac hleaves.1) 1)

theorem pass_start (hW : nextCommand d = some 'W'.toUInt8)
    (h : CommunicationManager.threadComm.run d = .ok () d') :
    d'.dacIsDone = -1 ∧ d'.Generator = d.Generator := by
  obtain ⟨rest, hin⟩ := input_of_nextCommand hW
  rw [threadComm_run, hin] at h
  obtain ⟨-, -, c, -, rfl⟩ := startGenerator_ok (d := received d _ rest) h
  exact ⟨rfl, rfl⟩

/-- Any other pass that accepts no chunk leaves the flag, and the samples being played. -/
theorem pass_other (hW : nextCommand d ≠ some 'W'.toUInt8) (hd : ¬ AcceptsChunk d)
    (h : CommunicationManager.threadComm.run d = .ok () d') :
    d'.dacIsDone = d.dacIsDone ∧ (DAC.isSigGenRunning d = true → d'.Generator = d.Generator) := by
  by_cases hD : nextCommand d = some 'D'.toUInt8
  · obtain ⟨rest, hin⟩ := input_of_nextCommand hD
    rw [threadComm_run, hin] at h
    have hg : ¬ ChunkGuards (received d 'D'.toUInt8 rest) :=
      fun hg => hd ((acceptsChunk_iff hin).mpr hg)
    have hrun : updateGenerator.run (received d 'D'.toUInt8 rest) = .ok () d' := h
    exact updateGenerator_other (d := received d 'D'.toUInt8 rest) hg hrun
  · have hview : generatorState d' = generatorState d := by
      refine view_of_pass (fun c hnext => generatorState_step ?_ ?_) h
      · rintro rfl
        exact hD hnext
      · rintro rfl
        exact hW hnext
    exact ⟨congrArg Prod.fst hview, fun _ => congrArg Prod.snd hview⟩

@[simp] theorem received_dacIsDone (c : UInt8) : (received d c rest).dacIsDone = d.dacIsDone := rfl
@[simp] theorem received_Generator (c : UInt8) : (received d c rest).Generator = d.Generator := rfl
@[simp] theorem replied_dacIsDone (x : UInt8) : (d.replied x).dacIsDone = d.dacIsDone := rfl
@[simp] theorem replied_Generator (x : UInt8) : (d.replied x).Generator = d.Generator := rfl

theorem AcceptsChunk.input (hd : AcceptsChunk d) : ∃ rest, d.input = 'D'.toUInt8 :: rest :=
  input_of_nextCommand hd.1

theorem replied_trace (x : UInt8) (d : Device) (rest : List UInt8) :
    ((received d 'D'.toUInt8 rest).replied x).trace =
      d.trace ++ [.read 1, .command 'D'.toUInt8, .read 2, .write [x]] := by
  simp [Device.replied, Device.afterRead, Device.logCall, received]

theorem pass_declined (hd : AcceptsChunk d) (hflag : d.dacIsDone = -1) :
    ∃ d', CommunicationManager.threadComm.run d = .ok () d' ∧ d'.dacIsDone = -1 ∧
      d'.Generator = d.Generator ∧ RepliesWith 0 d ∧ ¬ RepliesWith 1 d := by
  obtain ⟨rest, hin⟩ := hd.input
  have hrun : CommunicationManager.threadComm.run d =
      .ok () ((received d 'D'.toUInt8 rest).replied 0) := by
    rw [threadComm_run, hin]
    exact updateGenerator_declined ((acceptsChunk_iff hin).mp hd) hflag
  have htrace := replied_trace 0 d rest
  refine ⟨_, hrun, by simpa, by simp, ⟨[], ?_⟩, ?_⟩
  · rw [hrun, Outcome.state_ok, htrace, List.append_nil]
  · rintro ⟨calls, hcalls⟩
    rw [hrun, Outcome.state_ok, htrace] at hcalls
    simp at hcalls

theorem pass_granted (hd : AcceptsChunk d) (hflag : d.dacIsDone ≠ -1) (hsize : 0 < d.Generator.mSize)
    (heven : d.Generator.mSize % 2 = 0) :
    ∃ d', CommunicationManager.threadComm.run d = .ok () d' ∧ d'.dacIsDone = -1 ∧ RepliesWith 1 d ∧
      ChunkStored (decide (d.dacIsDone ≠ 0)) ((d.input.drop 3).take d.Generator.mSize) d.Generator
        d'.Generator := by
  obtain ⟨rest, hin⟩ := hd.input
  have hrun := updateGenerator_granted (d := received d 'D'.toUInt8 rest)
    ((acceptsChunk_iff hin).mp hd) hflag hsize
  have hpass : CommunicationManager.threadComm.run d =
      updateGenerator.run (received d 'D'.toUInt8 rest) := by
    rw [threadComm_run, hin]
    rfl
  refine ⟨_, hpass.trans hrun, rfl, ⟨[.read d.Generator.mSize], ?_⟩, ?_⟩
  · rw [hpass, hrun, Outcome.state_ok, ← replied_trace 1 d rest]
    rfl
  · rw [hin]
    exact chunkStored_store _ (List.length_take_le _ _) heven

end Pass

/-! ### Runs -/

/-- A 'W'. -/
def Starts (p : Playback × PlaybackAct) : Prop :=
  p.2 = .comm ∧ nextCommand p.1.dev = some 'W'.toUInt8

/-- A 'D' with a positive reply while the generator runs. -/
def Grants (p : Playback × PlaybackAct) : Prop :=
  p.2 = .comm ∧ AcceptsChunk p.1.dev ∧ RepliesWith 1 p.1.dev

/-- An event that reports the end of the second half, if `full`, and else of the first. -/
def Finishes (full : Bool) (p : Playback × PlaybackAct) : Prop := p.2 = .dac ∧ p.1.nextFull = full

/-- After it, earlier events count no more. -/
def Settles (p : Playback × PlaybackAct) : Prop := Starts p ∨ Grants p ∨ p.2 = .dac

/-- The generator has two halves of one size. -/
def EvenSize (d : Device) : Prop := d.Generator.mSize % 2 = 0 ∧ 2 ≤ d.Generator.mSize

/-- What the flag stands for, and the size a running generator has. -/
structure PlaybackInv (tr : List (Playback × PlaybackAct)) (s : Playback) : Prop where
  /-- Set, it stands for the last event, which no start and no chunk has followed. -/
  pending : s.dev.dacIsDone = -1 ∨ ∃ full, s.dev.dacIsDone = (if full then 1 else 0) ∧
    s.nextFull = !full ∧ Since (Finishes full) Settles tr
  size : DAC.isSigGenRunning s.dev = true → EvenSize s.dev

section Runs

variable {b : Board} {tr : List (Playback × PlaybackAct)} {s s' : Playback} {a : PlaybackAct} {d' : Device}

/-- A step that leaves the flag, and settles nothing. -/
theorem PlaybackInv.pending_snoc (h : PlaybackInv tr s) (hflag : s'.dev.dacIsDone = s.dev.dacIsDone)
    (hnext : s'.nextFull = s.nextFull) (hno : ¬ Settles (s, a)) :
    s'.dev.dacIsDone = -1 ∨ ∃ full, s'.dev.dacIsDone = (if full then 1 else 0) ∧
      s'.nextFull = !full ∧ Since (Finishes full) Settles (tr ++ [(s, a)]) := by
  rw [hflag, hnext]
  rcases h.pending with hnone | ⟨full, hset, hhalf, hsince⟩
  · exact .inl hnone
  · exact .inr ⟨full, hset, hhalf, hsince.snoc hno⟩

theorem not_settles_of_ne (hcomm : a ≠ .comm) (hdac : a ≠ .dac) : ¬ Settles (s, a) := by
  rintro (⟨ha, -⟩ | ⟨ha, -⟩ | ha)
  · exact hcomm ha
  · exact hcomm ha
  · exact hdac ha

theorem playbackInv_pass (h : PlaybackInv tr s) (hstart : Starts (s, .comm) → EvenSize s.dev)
    (hpass : CommunicationManager.threadComm.run s.dev = .ok () s'.dev)
    (hnext : s'.nextFull = if nextCommand s.dev = some 'W'.toUInt8 then false else s.nextFull) :
    PlaybackInv (tr ++ [(s, .comm)]) s' := by
  by_cases hW : nextCommand s.dev = some 'W'.toUInt8
  · obtain ⟨hflag, hgen⟩ := pass_start hW hpass
    refine ⟨.inl hflag, fun _ => ?_⟩
    rw [EvenSize, hgen]
    exact hstart ⟨rfl, hW⟩
  rw [if_neg hW] at hnext
  have hrunning := pass_running hW hpass
  by_cases hd : AcceptsChunk s.dev
  · obtain ⟨heven, htwo⟩ := h.size hd.2.2.2
    by_cases hflag : s.dev.dacIsDone = -1
    · obtain ⟨t, hrun, hflag', hgen, -, hno⟩ := pass_declined hd hflag
      obtain rfl : t = s'.dev := by simpa [hrun] using hpass
      refine ⟨.inl hflag', fun _ => ?_⟩
      rw [EvenSize, hgen]
      exact ⟨heven, htwo⟩
    · obtain ⟨t, hrun, hflag', -, hstored⟩ := pass_granted hd hflag (by omega) heven
      obtain rfl : t = s'.dev := by simpa [hrun] using hpass
      refine ⟨.inl hflag', fun _ => ?_⟩
      rw [EvenSize, hstored.size]
      exact ⟨heven, htwo⟩
  · obtain ⟨hflag, hgen⟩ := pass_other hW hd hpass
    refine ⟨h.pending_snoc hflag hnext ?_, fun hrun => ?_⟩
    · rintro (⟨-, hW'⟩ | ⟨-, hd', -⟩ | ha)
      · exact hW hW'
      · exact hd hd'
      · simp at ha
    · have hrun' := hrunning hrun
      rw [EvenSize, hgen hrun']
      exact h.size hrun'

theorem PlaybackInv.step (h : PlaybackInv tr s) (hstart : Starts (s, a) → EvenSize s.dev)
    (hs : PlaybackStep s a s') : PlaybackInv (tr ++ [(s, a)]) s' := by
  cases a with
  | host bytes =>
    obtain rfl := hs
    exact ⟨h.pending_snoc rfl rfl (not_settles_of_ne (by simp) (by simp)), h.size⟩
  | env =>
    obtain ⟨hrely, hflag, hnext⟩ := hs
    refine ⟨h.pending_snoc hflag hnext (not_settles_of_ne (by simp) (by simp)), fun hrun => ?_⟩
    rw [DAC.isSigGenRunning, hrely.dac] at hrun
    rw [EvenSize, hrely.generatorSize]
    exact h.size hrun
  | dac =>
    obtain ⟨hrun, rfl⟩ := hs
    exact ⟨.inr ⟨s.nextFull, rfl, rfl, since_last ⟨rfl, rfl⟩⟩, fun _ => h.size hrun⟩
  | comm => exact playbackInv_pass h hstart hs.1 hs.2

theorem playbackInv_run (h : PlaybackRun b tr s) (hstart : ∀ p ∈ tr, Starts p → EvenSize p.1.dev) :
    PlaybackInv tr s := by
  induction h with
  | nil => exact ⟨.inl rfl, fun hrun => by simp [powerUp, DAC.isSigGenRunning] at hrun⟩
  | snoc _ hs ih =>
    rw [List.forall_mem_append, List.forall_mem_singleton] at hstart
    exact (ih hstart.1).step hstart.2 hs

/-- A 'D' accepted while the generator runs gets one of two replies. With 1, its chunk is
stored in the half that the last event has reported, while the other half is played; since
that event there has been no 'W' and no other such reply, so each has an event of its own.
With 0, no sample changes. -/
theorem chunk_answers_event (h : PlaybackRun b tr s)
    (hstart : ∀ p ∈ tr, Starts p → EvenSize p.1.dev) (hd : AcceptsChunk s.dev) :
    EvenSize s.dev ∧ ∃ d', CommunicationManager.threadComm.run s.dev = .ok () d' ∧
      ((RepliesWith 1 s.dev ∧ ∃ full, Since (Finishes full) Settles tr ∧ s.nextFull = !full ∧
          ChunkStored full ((s.dev.input.drop 3).take s.dev.Generator.mSize) s.dev.Generator
            d'.Generator) ∨
        (RepliesWith 0 s.dev ∧ ¬ RepliesWith 1 s.dev ∧ d'.Generator = s.dev.Generator)) := by
  have hinv := playbackInv_run h hstart
  have hsize := hinv.size hd.2.2.2
  obtain ⟨heven, htwo⟩ := hsize
  refine ⟨⟨heven, htwo⟩, ?_⟩
  rcases hinv.pending with hnone | ⟨full, hset, hhalf, hsince⟩
  · obtain ⟨d', hrun, -, hgen, hreply, hno⟩ := pass_declined hd hnone
    exact ⟨d', hrun, .inr ⟨hreply, hno, hgen⟩⟩
  · have hflag : s.dev.dacIsDone ≠ -1 := by
      rw [hset]
      cases full <;> simp
    have hfull : decide (s.dev.dacIsDone ≠ 0) = full := by
      rw [hset]
      cases full <;> rfl
    obtain ⟨d', hrun, -, hreply, hstored⟩ := pass_granted hd hflag (by omega) heven
    rw [hfull] at hstored
    exact ⟨d', hrun, .inl ⟨hreply, full, hsince, hhalf, hstored⟩⟩

end Runs

theorem not_starts_of_act {s : Playback} {a : PlaybackAct} (h : a ≠ .comm) : ¬ Starts (s, a) :=
  fun hs => h hs.1

theorem not_starts_of_command {s : Playback} {a : PlaybackAct}
    (h : nextCommand s.dev ≠ some 'W'.toUInt8) : ¬ Starts (s, a) :=
  fun hs => h hs.2

/-- A generator of two samples, after its first half has been played. -/
theorem chunk_answers_event_first_half :
    ∃ tr s d', PlaybackRun default tr s ∧
      tr.map Prod.snd = [.host ['D'.toUInt8, 2, 0, 1, 0, 2, 0, 'W'.toUInt8], .comm, .comm, .dac,
        .host ['D'.toUInt8, 0, 0, 5, 0]] ∧
      CommunicationManager.threadComm.run s.dev = .ok () d' ∧ RepliesWith 1 s.dev ∧
      s.nextFull = true ∧ ChunkStored false [5, 0] s.dev.Generator d'.Generator := by
  obtain ⟨tr, s, hr, hacts, hstart, hd, hone, hnext, hchunk⟩ : ∃ tr s, PlaybackRun default tr s ∧
      tr.map Prod.snd = [.host ['D'.toUInt8, 2, 0, 1, 0, 2, 0, 'W'.toUInt8], .comm, .comm, .dac,
        .host ['D'.toUInt8, 0, 0, 5, 0]] ∧ (∀ p ∈ tr, Starts p → EvenSize p.1.dev) ∧
      AcceptsChunk s.dev ∧ RepliesWith 1 s.dev ∧ s.nextFull = true ∧
      (s.dev.input.drop 3).take s.dev.Generator.mSize = [5, 0] := by
    have hhost := Run.nil.snoc (playbackStep_host ⟨powerUp default, false⟩
      ['D'.toUInt8, 2, 0, 1, 0, 2, 0, 'W'.toUInt8])
    have hgen := hhost.snoc (playbackStep_pass rfl)
    have hstart := hgen.snoc (playbackStep_pass rfl)
    have hevent := hstart.snoc (playbackStep_dac rfl)
    refine ⟨_, _, hevent.snoc (playbackStep_host _ ['D'.toUInt8, 0, 0, 5, 0]), rfl, ?_,
      ⟨rfl, rfl, by decide +kernel, rfl⟩, ⟨[.read 2], by decide +kernel⟩, rfl, rfl⟩
    simp only [List.nil_append, List.cons_append, List.forall_mem_cons]
    refine ⟨fun h => absurd h (not_starts_of_act (by simp)),
      fun h => absurd h (not_starts_of_command (by decide +kernel)), fun _ => ⟨rfl, by decide +kernel⟩,
      fun h => absurd h (not_starts_of_act (by simp)),
      fun h => absurd h (not_starts_of_act (by simp)), by simp⟩
  obtain ⟨-, d', hrun, hreply⟩ := chunk_answers_event hr hstart hd
  rcases hreply with ⟨-, full, -, hhalf, hstored⟩ | ⟨-, hno, -⟩
  · rw [hnext] at hhalf
    obtain rfl : full = false := by simpa using hhalf
    rw [hchunk] at hstored
    exact ⟨tr, s, d', hr, hacts, hrun, hone, hnext, hstored⟩
  · exact absurd hone hno

end Stmdsp
