import Stmdsp.Proofs.Clock
import Stmdsp.Proofs.Handlers
import Stmdsp.Proofs.HandlerSteps

/-! When the converter drivers accept every start the firmware makes. The sizes
come from 'B' and 'D', the driver states from 'R', 'S', 'W' and 'w', so this rests
on invariants of all commands. -/

namespace Stmdsp

open Proc

/-! ### Buffer sizes -/

structure Sizes where
  inSize : ℕ
  outSize : ℕ
  generatorSize : ℕ

def Device.sizes (d : Device) : Sizes := ⟨d.In.mSize, d.Out.mSize, d.Generator.mSize⟩

structure SameSizes (d d' : Device) : Prop where
  sizes : d'.sizes = d.sizes

theorem SameSizes.refl (d : Device) : SameSizes d d := ⟨rfl⟩

theorem SameSizes.trans (a b c : Device) (h : SameSizes a b) (k : SameSizes b c) : SameSizes a c :=
  ⟨k.sizes.trans h.sizes⟩

/-- Only 'B' and 'D' set sizes. -/
theorem sizes_step {c : UInt8} (hB : c ≠ 'B'.toUInt8) (hD : c ≠ 'D'.toUInt8) (d d' : Device)
    (h : HandlerStep c d d') : SameSizes d d' := by
  cases h with
  | inSize hc => exact absurd hc hB
  | outSize hc => exact absurd hc hB
  | generatorSize hc => exact absurd hc hD
  | _ => exact ⟨rfl⟩

/-! ### The geometry invariant -/

/-- Input and output buffer have one even size, and the generator's is positive. -/
structure Geometry (d : Device) : Prop where
  same : d.Out.mSize = d.In.mSize
  even : d.In.mSize % 2 = 0
  generator : 0 < d.Generator.mSize

theorem Geometry.of_sizes {d d' : Device} (hd : Geometry d) (h : SameSizes d d') : Geometry d' := by
  have hs := h.sizes
  simp only [Device.sizes, Sizes.mk.injEq] at hs
  obtain ⟨hin, hout, hgen⟩ := hs
  exact ⟨by rw [hin, hout]; exact hd.same, by rw [hin]; exact hd.even, by rw [hgen]; exact hd.generator⟩

theorem setSize_mSize {b : SampleBuffer} {size : ℕ} (h : size ≤ MAX_SAMPLE_BUFFER_SIZE) :
    (b.setSize size).mSize = size := by
  simp only [SampleBuffer.setSize]
  split <;> omega

theorem geometry_setBufferSize {d d' : Device} (h : setBufferSize.run d = .ok () d')
    (hd : Geometry d) : Geometry d' := by
  rw [setBufferSize_run] at h
  split at h
  · split at h
    · split at h
      · rename_i hfits
        cases h
        have hin := setSize_mSize (b := d.In) hfits
        have hout := setSize_mSize (b := d.Out) hfits
        exact ⟨hout.trans hin.symm, by rw [hin]; omega, hd.generator⟩
      · cases h
        exact hd.of_sizes ⟨rfl⟩
    · cases h
      exact hd.of_sizes ⟨rfl⟩
  · cases h
    exact hd.of_sizes ⟨rfl⟩

/-- A generator of size 0 does not survive: reading its 0 bytes halts. -/
theorem geometry_generatorTransfer {count : ℕ} {d d' : Device}
    (h : generatorTransfer count d = .ok () d') (hd : Geometry d) : Geometry d' := by
  unfold generatorTransfer at h
  dsimp only at h
  split at h
  · split at h
    · cases h
      exact hd.of_sizes ⟨rfl⟩
    · split at h
      · cases h
        exact hd.of_sizes ⟨rfl⟩
      · simp at h
  · split at h
    · rename_i hpos
      cases h
      simp only [SampleBuffer.bytesize] at hpos
      exact ⟨hd.same, hd.even, by simp only [SampleBuffer.withStorage]; omega⟩
    · simp at h

theorem geometry_updateGenerator {d d' : Device} (h : updateGenerator.run d = .ok () d')
    (hd : Geometry d) : Geometry d' := by
  rw [updateGenerator_run] at h
  split at h
  · split at h
    · exact geometry_generatorTransfer h (hd.of_sizes ⟨rfl⟩)
    · cases h
      exact hd.of_sizes ⟨rfl⟩
  · cases h
    exact hd.of_sizes ⟨rfl⟩

theorem Geometry.step {d d' : Device} {a : CommAct} (hd : Geometry d) (h : CommStep d a d') :
    Geometry d' := by
  cases a with
  | host bytes =>
    obtain rfl := h
    exact hd.of_sizes ⟨rfl⟩
  | env => exact hd.of_sizes ⟨by simp only [Device.sizes, h.inSize, h.outSize, h.generatorSize]⟩
  | comm =>
    rw [CommStep] at h
    have hrec : ∀ c rest, Geometry (received d c rest) := fun c rest => hd.of_sizes ⟨rfl⟩
    by_cases hB : nextCommand d = some 'B'.toUInt8
    · obtain ⟨rest, hin⟩ := input_of_nextCommand hB
      rw [threadComm_run, hin] at h
      exact geometry_setBufferSize h (hrec _ rest)
    by_cases hD : nextCommand d = some 'D'.toUInt8
    · obtain ⟨rest, hin⟩ := input_of_nextCommand hD
      rw [threadComm_run, hin] at h
      exact geometry_updateGenerator h (hrec _ rest)
    refine hd.of_sizes (rel_of_pass SameSizes.refl SameSizes.trans (fun c hnext => sizes_step ?_ ?_) h)
    · rintro rfl
      exact hB hnext
    · rintro rfl
      exact hD hnext

theorem geometry_run {b : Board} {tr : List (Device × CommAct)} {d : Device} (h : CommRun b tr d) :
    Geometry d :=
  h.invariant (I := Geometry)
    ⟨rfl, by simp [powerUp, SampleBuffer.init, MAX_SAMPLE_BUFFER_SIZE],
      by simp [powerUp, SampleBuffer.init, MAX_SAMPLE_BUFFER_SIZE]⟩
    fun _ _ _ hd hs => hd.step hs

/-! ### Starts -/

/-- The driver accepts the call: a start finds the driver not active, and a
positive depth that is 1 or even. -/
def Call.Accepted : Call → Prop
  | .adcStart state depth => state ≠ .ACTIVE ∧ 0 < depth ∧ (depth = 1 ∨ depth % 2 = 0)
  | .dacStart _ state depth => state ≠ .ACTIVE ∧ 0 < depth ∧ (depth = 1 ∨ depth % 2 = 0)
  | _ => True

def AllAccepted (d : Device) : Prop := ∀ c ∈ d.trace, c.Accepted

/-- The next pass of the loop starts no converter that will be rejected: 'R' finds
the buffers set to a size, 'W' a stopped generator whose size is 1 or even. -/
def StartReady (d : Device) (a : CommAct) : Prop :=
  a = .comm →
    (nextCommand d = some 'R'.toUInt8 → d.runStatus = .Idle → d.In.mSize ≠ 0) ∧
    (nextCommand d = some 'W'.toUInt8 →
      DAC.isSigGenRunning d = false ∧ depthOk d.Generator.mSize = true)

/-- No start was added to the trace. -/
structure NoStarts (d d' : Device) : Prop where
  accepted : AllAccepted d' ↔ AllAccepted d

theorem NoStarts.refl (d : Device) : NoStarts d d := ⟨Iff.rfl⟩

theorem NoStarts.trans (a b c : Device) (h : NoStarts a b) (k : NoStarts b c) : NoStarts a c :=
  ⟨k.accepted.trans h.accepted⟩

theorem NoStarts.of_trace_eq {d d' : Device} (h : d'.trace = d.trace) : NoStarts d d' :=
  ⟨by simp only [AllAccepted, h]⟩

theorem allAccepted_append {d d' : Device} {t : List Call} (h : d'.trace = d.trace ++ t) :
    AllAccepted d' ↔ AllAccepted d ∧ ∀ c ∈ t, c.Accepted := by
  rw [AllAccepted, h]
  exact List.forall_mem_append

theorem NoStarts.of_leaves {τ : Type} {view : Device → τ} {d d' : Device} (h : Leaves view d d') :
    NoStarts d d' := by
  obtain ⟨-, t, ht, hc⟩ := h
  refine ⟨(allAccepted_append ht).trans (and_iff_left fun c hct => ?_)⟩
  cases c <;> first | trivial | exact absurd (hc _ hct) (by simp [Call.isConverter])

theorem NoStarts.of_clockStop {d d' : Device} {n : UInt32} (h : d'.trace = d.trace ++ [.clockStop n]) :
    NoStarts d d' :=
  ⟨(allAccepted_append h).trans (and_iff_left (by simp [Call.Accepted]))⟩

theorem noStarts_sclock_stop : Keeps NoStarts SClock.stop := by
  refine (keeps_act fun _ => .of_clockStop rfl).bind fun after => ?_
  split
  · exact keeps_modify fun _ => .of_trace_eq rfl
  · trivial

theorem noStarts_dac_stop (channel : Fin 2) : Keeps NoStarts (DAC.stop channel) := by
  refine Keeps.bind ?_ fun _ => noStarts_sclock_stop
  exact keeps_guarded (fun _ => .of_trace_eq rfl) fun _ _ => .of_trace_eq rfl

theorem noStarts_stopConversion : Keeps NoStarts stopConversion := by
  refine ((quiet_assert _ _).mono fun _ _ => NoStarts.of_leaves).bind fun running => ?_
  split
  · refine ((noStarts_dac_stop _).bind fun _ => ?_).bind fun _ =>
      keeps_modify fun _ => .of_trace_eq rfl
    refine noStarts_sclock_stop.bind fun _ => Keeps.bind ?_ fun _ =>
      (keeps_modify fun _ => .of_trace_eq rfl).bind fun _ =>
      (keeps_modify fun _ => .of_trace_eq rfl).bind fun _ => keeps_modify fun _ => .of_trace_eq rfl
    exact keeps_guarded (fun _ => .of_trace_eq rfl) fun _ _ => .of_trace_eq rfl
  · trivial

theorem noStarts_dispatch {c : UInt8} (hR : c ≠ 'R'.toUInt8) (hW : c ≠ 'W'.toUInt8) :
    Keeps NoStarts (dispatch c) := by
  by_cases hc : c ∈ converterCommands
  · simp only [converterCommands, List.mem_cons, List.not_mem_nil, or_false] at hc
    rcases hc with rfl | rfl | rfl | rfl
    · exact absurd rfl hR
    · exact noStarts_stopConversion
    · exact absurd rfl hW
    · exact noStarts_dac_stop 1
  · exact (converters_dispatch hc).mono fun _ _ => NoStarts.of_leaves

section Pass

variable {d : Device} {rest : List UInt8}

theorem accepted_startConversion (hc : d.converters.Coupled) (hg : Geometry d) :
    AllAccepted (startConversion.run d).state ↔
      AllAccepted d ∧ (d.runStatus = .Idle → d.In.mSize ≠ 0) := by
  by_cases hidle : d.runStatus = .Idle
  · obtain ⟨hadc, hdac⟩ : d.adc.driver.state = .READY ∧ (d.dac 0).state = .READY := by
      rcases hc.conversion with ⟨-, ha, h0⟩ | ⟨hr, -, -⟩
      · exact ⟨ha, h0⟩
      · exact absurd (hidle.symm.trans hr) (by decide)
    have heven := hg.even
    obtain ⟨t, ht, ht'⟩ := startConversion_trace hidle
    rw [allAccepted_append ht]
    refine and_congr_right fun _ => ?_
    -- The DAC's depth is the ADC's, so its call adds no condition.
    rcases ht' with rfl | rfl <;>
      simp [Call.Accepted, hidle, hadc, hdac, hg.same, heven, Nat.pos_iff_ne_zero]
  · rw [startConversion_rejected hidle]
    simp [hidle, AllAccepted]

theorem accepted_startGenerator (hg : Geometry d) :
    AllAccepted (startGenerator.run d).state ↔
      AllAccepted d ∧ DAC.isSigGenRunning d = false ∧ depthOk d.Generator.mSize = true := by
  rw [allAccepted_append (startGenerator_trace d)]
  simp [Call.Accepted, DAC.isSigGenRunning, depthOk, hg.generator]

/-- One pass of the loop makes accepted starts only, exactly if it is ready for
the start it makes. -/
theorem accepted_threadComm (hc : d.converters.Coupled) (hg : Geometry d) :
    AllAccepted (CommunicationManager.threadComm.run d).state ↔
      AllAccepted d ∧ StartReady d .comm := by
  rw [threadComm_run]
  cases hin : d.input with
  | nil => simp [StartReady, nextCommand, hin]
  | cons c rest =>
    change AllAccepted ((dispatch c).run (received d c rest)).state ↔ _
    have hr : AllAccepted (received d c rest) ↔ AllAccepted d :=
      (NoStarts.of_leaves (leaves_received d c rest)).accepted
    have hc' : (received d c rest).converters.Coupled := hc
    have hg' : Geometry (received d c rest) := hg.of_sizes ⟨rfl⟩
    have hnext : nextCommand d = some c := by rw [nextCommand, hin]; rfl
    by_cases hR : c = 'R'.toUInt8
    · subst hR
      rw [dispatch_R, accepted_startConversion hc' hg', hr]
      refine and_congr_right fun _ => ?_
      simp only [StartReady, hnext, forall_true_left]
      exact (and_iff_left fun h => absurd h (by decide)).symm
    · by_cases hW : c = 'W'.toUInt8
      · subst hW
        rw [dispatch_W, accepted_startGenerator hg', hr]
        refine and_congr_right fun _ => ?_
        simp only [StartReady, hnext, forall_true_left]
        exact (and_iff_right fun h => absurd h (by decide)).symm
      · have hk := (noStarts_dispatch hR hW).run NoStarts.refl NoStarts.trans (received d c rest)
        rw [hk.accepted, hr]
        simp [StartReady, hnext, hR, hW]

end Pass

theorem accepted_step {d d' : Device} {a : CommAct} (hc : d.converters.Coupled) (hg : Geometry d)
    (hs : CommStep d a d') : AllAccepted d' ↔ AllAccepted d ∧ StartReady d a := by
  cases a with
  | host bytes =>
    obtain rfl := hs
    simp [AllAccepted, StartReady]
  | env => simp [AllAccepted, StartReady, hs.trace]
  | comm =>
    have h := accepted_threadComm hc hg
    rwa [show CommunicationManager.threadComm.run d = .ok () d' from hs] at h

/-- Over a whole run and the pass after it, which may be the one that halts: every
converter start is accepted exactly if every pass was ready for its start. -/
theorem starts_accepted_iff {b : Board} {tr : List (Device × CommAct)} {d : Device}
    (h : CommRun b tr d) :
    AllAccepted (CommunicationManager.threadComm.run d).state ↔
      ∀ p ∈ tr ++ [(d, .comm)], StartReady p.1 p.2 := by
  rw [accepted_threadComm (coupled_run h) (geometry_run h)]
  have hrun : AllAccepted d ↔ ∀ p ∈ tr, StartReady p.1 p.2 :=
    h.forall_iff (by simp [AllAccepted, powerUp]) fun _ _ _ _ hr hs =>
      accepted_step (coupled_run hr) (geometry_run hr) hs
  rw [hrun]
  simp [or_imp, forall_and]

/-- The buffers set to two samples, and then a start. -/
theorem starts_accepted_iff_two_samples :
    ∃ tr d, CommRun default tr d ∧
      tr.map Prod.snd = [.host ['B'.toUInt8, 1, 0, 'R'.toUInt8], .comm] ∧
      nextCommand d = some 'R'.toUInt8 ∧
      (AllAccepted (CommunicationManager.threadComm.run d).state ↔
        ∀ p ∈ tr ++ [(d, .comm)], StartReady p.1 p.2) := by
  obtain ⟨tr, hr, hacts⟩ := run_of_execActs (powerUp default)
    [.host ['B'.toUInt8, 1, 0, 'R'.toUInt8], .comm] rfl
  exact ⟨tr, _, hr, hacts, rfl, starts_accepted_iff hr⟩

theorem not_allAccepted {d : Device} {t : List Call} {c : Call} (ht : d.trace = t ++ [c])
    (hc : ¬ c.Accepted) : ¬ AllAccepted d :=
  fun h => hc (h c (by simp [ht]))

/-- Three orders of commands that make a start the driver rejects: 'R' on buffers
set to no samples, 'W' twice, 'W' on a generator of three samples. -/
theorem starts_rejected :
    (∃ tr d, CommRun default tr d ∧
      tr.map Prod.snd = [.host ['B'.toUInt8, 0, 0, 'R'.toUInt8], .comm] ∧
      ¬ AllAccepted (CommunicationManager.threadComm.run d).state) ∧
    (∃ tr d, CommRun default tr d ∧
      tr.map Prod.snd = [.host ['W'.toUInt8, 'W'.toUInt8], .comm] ∧
      ¬ AllAccepted (CommunicationManager.threadComm.run d).state) ∧
    (∃ tr d, CommRun default tr d ∧
      tr.map Prod.snd = [.host ['D'.toUInt8, 3, 0, 0, 0, 0, 0, 0, 0, 'W'.toUInt8], .comm] ∧
      ¬ AllAccepted (CommunicationManager.threadComm.run d).state) := by
  refine ⟨?_, ?_, ?_⟩
  · obtain ⟨tr, hr, hacts⟩ := run_of_execActs (powerUp default)
      [.host ['B'.toUInt8, 0, 0, 'R'.toUInt8], .comm] rfl
    refine ⟨tr, _, hr, hacts, not_allAccepted (c := .adcStart .READY 0)
      (t := [.read 1, .command 'B'.toUInt8, .read 2, .read 1, .command 'R'.toUInt8])
      (by decide +kernel) ?_⟩
    simp [Call.Accepted]
  · obtain ⟨tr, hr, hacts⟩ := run_of_execActs (powerUp default)
      [.host ['W'.toUInt8, 'W'.toUInt8], .comm] rfl
    refine ⟨tr, _, hr, hacts, not_allAccepted (c := .dacStart 1 .ACTIVE 8192)
      (t := [.read 1, .command 'W'.toUInt8, .dacStart 1 .READY 8192, .read 1,
        .command 'W'.toUInt8]) (by decide +kernel) ?_⟩
    simp [Call.Accepted]
  · obtain ⟨tr, hr, hacts⟩ := run_of_execActs (powerUp default)
      [.host ['D'.toUInt8, 3, 0, 0, 0, 0, 0, 0, 0, 'W'.toUInt8], .comm] rfl
    refine ⟨tr, _, hr, hacts, not_allAccepted (c := .dacStart 1 .READY 3)
      (t := [.read 1, .command 'D'.toUInt8, .read 2, .read 6, .read 1, .command 'W'.toUInt8])
      (by decide +kernel) ?_⟩
    simp [Call.Accepted]

end Stmdsp
