import Stmdsp.Model.System
import Stmdsp.Proofs.HandlerSteps

/-! What the single steps of the command handlers do to the conversion pipeline.
Between any two of them an interrupt or a thread of higher priority may come in,
so the statements are about every interruption point and not about whole runs. -/

namespace Stmdsp

open Proc

structure SamePipe (d d' : Device) : Prop where
  view : d'.pipe = d.pipe

/-- Messages and their history are the same. -/
structure SameMail (d d' : Device) : Prop where
  mMailbox : d'.mMailbox = d.mMailbox
  conv : d'.conv = d.conv
  events : d'.adc.events = d.adc.events

theorem SameMail.refl (d : Device) : SameMail d d := ⟨rfl, rfl, rfl⟩

theorem SameMail.trans (a b c : Device) (h : SameMail a b) (k : SameMail b c) : SameMail a c :=
  ⟨k.mMailbox.trans h.mMailbox, k.conv.trans h.conv, k.events.trans h.events⟩

theorem SamePipe.of_core {d d' : Device} (h : Leaves Device.core d d') : SamePipe d d' :=
  ⟨congrArg CoreView.pipe h.1⟩

/-! ### Clock, generator and DAC -/

theorem SamePipe.of_onlyDac {d d' : Device} (h : OnlyDac d d') : SamePipe d d' :=
  ⟨by rw [h.eq]; rfl⟩

theorem pipe_sclock_start : Keeps SamePipe SClock.start :=
  onlyDac_sclock_start.mono fun _ _ => .of_onlyDac

theorem pipe_sclock_stop : Keeps SamePipe SClock.stop :=
  onlyDac_sclock_stop.mono fun _ _ => .of_onlyDac

theorem pipe_dac_start (channel : Fin 2) (count : ℕ) : Keeps SamePipe (DAC.start channel count) :=
  (onlyDac_start channel count).mono fun _ _ => .of_onlyDac

theorem pipe_dac_stop (channel : Fin 2) : Keeps SamePipe (DAC.stop channel) :=
  (onlyDac_stop channel).mono fun _ _ => .of_onlyDac

theorem pipe_assert (c : Device → Bool) (e : Error) : Keeps SamePipe (EM.assert c e) :=
  (quiet_assert c e).mono fun _ _ h => .of_core h.quiet_core

/-- The handlers that neither start, stop nor change the conversion. -/
theorem pipe_step {c : UInt8} (hR : c ≠ 'R'.toUInt8) (hS : c ≠ 'S'.toUInt8) (hM : c ≠ 'M'.toUInt8)
    (d d' : Device) (h : HandlerStep c d d') : SamePipe d d' := by
  cases h with
  | operation hc => exact absurd hc hM
  | status hc => exact absurd hc (not_or.mpr ⟨hR, hS⟩)
  | conversion hc => exact absurd hc (not_or.mpr ⟨hR, hS⟩)
  | _ => exact ⟨rfl⟩

theorem pipe_dispatch {c : UInt8} (hR : c ≠ 'R'.toUInt8) (hS : c ≠ 'S'.toUInt8)
    (hM : c ≠ 'M'.toUInt8) : Keeps SamePipe (dispatch c) :=
  (steps_dispatch c).mono (pipe_step hR hS hM)

/-- No handler touches the mailbox. -/
theorem mail_step {c : UInt8} (d d' : Device) (h : HandlerStep c d d') : SameMail d d' := by
  cases h with
  | _ => exact ⟨rfl, rfl, rfl⟩

theorem mail_dispatch (c : UInt8) : Keeps SameMail (dispatch c) := (steps_dispatch c).mono mail_step

/-! ### Idle means stopped, at every interruption point -/

/-- What everything but the command thread leaves alone of the run. -/
structure Interference (d d' : Device) : Prop where
  runStatus : d'.runStatus = d.runStatus
  adcDriver : d'.adc.driver = d.adc.driver
  operation : d'.adc.mOperation = none ↔ d.adc.mOperation = none

theorem Interference.refl (d : Device) : Interference d d := ⟨rfl, rfl, Iff.rfl⟩

theorem Interference.trans (a b c : Device) (h : Interference a b) (k : Interference b c) :
    Interference a c :=
  ⟨k.runStatus.trans h.runStatus, k.adcDriver.trans h.adcDriver, k.operation.trans h.operation⟩

theorem Rely.interference {d d' : Device} (h : Rely d d') : Interference d d' :=
  ⟨h.runStatus, h.adcDriver, h.operation⟩

/-- Running, or idle with the ADC stopped and without a handler. -/
def IdleStopped (d : Device) : Prop :=
  d.runStatus = .Running ∨
    (d.runStatus = .Idle ∧ d.adc.driver.state = .READY ∧ d.adc.mOperation = none)

theorem IdleStopped.of_idle {d : Device} (h : IdleStopped d) (hidle : d.runStatus = .Idle) :
    d.adc.driver.state = .READY ∧ d.adc.mOperation = none := by
  rcases h with hrun | ⟨-, hstop⟩
  · exact absurd (hrun.symm.trans hidle) (by decide)
  · exact hstop

theorem IdleStopped.of_not_idle {d : Device} (h : IdleStopped d) (hidle : d.runStatus ≠ .Idle) :
    d.runStatus = .Running :=
  h.resolve_right fun hi => hidle hi.1

theorem IdleStopped.stable {a b : Device} (h : Interference a b) (ha : IdleStopped a) :
    IdleStopped b := by
  refine ha.imp (fun hrun => h.runStatus.trans hrun) fun ⟨hidle, hd, ho⟩ => ?_
  exact ⟨h.runStatus.trans hidle, by rw [h.adcDriver]; exact hd, h.operation.mpr ho⟩

theorem IdleStopped.of_pipe {a b : Device} (h : SamePipe a b) (ha : IdleStopped a) :
    IdleStopped b := by
  have hs := congrArg PipeView.runStatus h.view
  have hd := congrArg PipeView.adcDriver h.view
  have ho := congrArg PipeView.mOperation h.view
  simp only [Device.pipe] at hs hd ho
  rwa [IdleStopped, hs, hd, ho]

theorem idleStopped_of_running {d : Device} (h : d.runStatus = .Running) : IdleStopped d := .inl h

def Running (d : Device) : Prop := d.runStatus = .Running

theorem Running.stable {a b : Device} (h : Interference a b) (ha : Running a) : Running b :=
  h.runStatus.trans ha

theorem Running.of_pipe {a b : Device} (h : SamePipe a b) (ha : Running a) : Running b :=
  (congrArg PipeView.runStatus h.view).trans ha

section Holds

variable {d : Device}

/-- A program that leaves the pipeline alone keeps what holds of the run. -/
theorem running_of_pipe {α : Type} {p : Fw α} (hp : Keeps SamePipe p) (h : Running d) :
    Holds Interference IdleStopped (fun _ => Running) p d :=
  (hp.mono fun _ _ => Running.of_pipe).holds (fun _ _ => Running.stable)
    (fun _ => idleStopped_of_running) h

theorem holds_startConversion (h : IdleStopped d) :
    Holds Interference IdleStopped (fun _ _ => True) startConversion d := by
  have hassert : Holds Interference IdleStopped (fun _ => IdleStopped)
      (EM.assert (·.runStatus == .Idle) .NotIdle) d :=
    ((pipe_assert _ _).mono fun _ _ => IdleStopped.of_pipe).holds (fun _ _ => IdleStopped.stable)
      (fun _ h => h) h
  refine hassert.bind fun idle t ht _ => ?_
  split
  · -- From the first write on the status is `Running`, and nothing is to be shown.
    have hrun : Holds Interference IdleStopped (fun _ => Running)
        (Proc.modify fun d : Device => { d with runStatus := .Running }) t :=
      holds_modify ht fun _ _ => ⟨idleStopped_of_running rfl, rfl⟩
    refine hrun.bind fun _ t _ ht => ?_
    have hkeep : Keeps (fun a b => Running a → Running b) ConversionManager.start := by
      refine (keeps_modify fun _ h => h).bind fun _ => (keeps_gets fun _ h => h).bind fun _ =>
        Keeps.bind ?_ fun _ => (keeps_gets fun _ h => h).bind fun _ =>
        (pipe_dac_start _ _).mono fun _ _ => Running.of_pipe
      refine (keeps_modify fun _ h => h).bind fun _ => (keeps_modify fun _ h => h).bind fun _ =>
        (keeps_modify fun _ h => h).bind fun _ => Keeps.bind ?_ fun _ =>
        pipe_sclock_start.mono fun _ _ => Running.of_pipe
      exact keeps_guarded (fun _ h => h) fun _ _ h => h
    exact (hkeep.holds (fun _ _ => Running.stable) (fun _ => idleStopped_of_running) ht).mono
      fun _ _ _ _ => trivial
  · exact ⟨ht, trivial⟩

/-- Still `Running`, with the ADC already stopped. -/
def Stopped (d : Device) : Prop := Running d ∧ d.adc.driver.state = .READY

theorem Stopped.stable {a b : Device} (h : Interference a b) (ha : Stopped a) : Stopped b :=
  ⟨ha.1.stable h, by rw [h.adcDriver]; exact ha.2⟩

theorem stopped_modify {u : Device → Device} (hu : ∀ t, Stopped t → Stopped (u t))
    (h : Stopped d) : Holds Interference IdleStopped (fun _ => Stopped) (Proc.modify u) d :=
  holds_modify (idleStopped_of_running h.1) fun t ht =>
    ⟨idleStopped_of_running (hu t (h.stable ht)).1, hu t (h.stable ht)⟩

theorem holds_adc_stop (h : Running d) :
    Holds Interference IdleStopped (fun _ t => Stopped t ∧ t.adc.mOperation = none) ADC.stop d := by
  refine (running_of_pipe pipe_sclock_stop h).bind fun _ t _ ht => ?_
  have hstop : Holds Interference IdleStopped (fun _ => Stopped) adcStopConversion t := by
    refine holds_guarded (idleStopped_of_running ht) (fun s hr => ?_) fun s hr _ => ?_
    · exact idleStopped_of_running (ht.stable hr)
    · have hs : Running s := ht.stable hr
      exact ⟨idleStopped_of_running hs, hs, rfl⟩
  refine hstop.bind fun _ t _ ht => ?_
  refine Holds.bind (Q := fun _ => Stopped) ?_ fun _ t _ ht =>
    Holds.bind (Q := fun _ => Stopped) ?_ fun _ t _ ht => ?_
  · exact stopped_modify (fun _ h => h) ht
  · exact stopped_modify (fun _ h => h) ht
  refine holds_modify (idleStopped_of_running ht.1) fun s hr => ?_
  have hs : Stopped s := ht.stable hr
  exact ⟨idleStopped_of_running hs.1, hs, rfl⟩

/-- A guard that tests for `Running`. -/
theorem holds_assert_running (e : Error) (h : IdleStopped d) :
    Holds Interference IdleStopped (fun ok t => ok = true → Running t)
      (EM.assert (·.runStatus == .Running) e) d := by
  refine holds_act h fun t ht => ?_
  have hs : IdleStopped t := h.stable ht
  by_cases hc : t.runStatus = .Running
  · simpa [hc] using ⟨hs, hc⟩
  · have hs' : IdleStopped { t with em := t.em.add e } := hs
    simpa only [beq_iff_eq, hc, if_false, Bool.false_eq_true, false_imp_iff, and_true] using hs'

theorem holds_stopConversion (h : IdleStopped d) :
    Holds Interference IdleStopped (fun _ _ => True) stopConversion d := by
  refine (holds_assert_running _ h).bind fun running t ht hrun => ?_
  split
  · rename_i hok
    refine Holds.bind ((running_of_pipe (pipe_dac_stop 0) (hrun hok)).bind fun _ t _ ht =>
      holds_adc_stop ht) fun _ t ht hstop => ?_
    -- The only write of `Idle`: by now the ADC is stopped and its handler cleared.
    exact holds_modify ht fun _ hr =>
      ⟨.inr ⟨rfl, (hstop.1.stable hr).2, hr.operation.mpr hstop.2⟩, trivial⟩
  · exact ⟨ht, trivial⟩

theorem holds_measureConversion (h : IdleStopped d) :
    Holds Interference IdleStopped (fun _ _ => True) measureConversion d := by
  refine (holds_assert_running _ h).bind fun running t ht hrun => ?_
  split
  · rename_i hok
    refine holds_modify ht fun s hr => ?_
    have hs : Running s := (hrun hok).stable hr
    exact ⟨idleStopped_of_running hs, trivial⟩
  · exact ⟨ht, trivial⟩

theorem holds_dispatch (c : UInt8) (h : IdleStopped d) :
    Holds Interference IdleStopped (fun _ _ => True) (dispatch c) d := by
  by_cases hR : c = 'R'.toUInt8
  · subst hR
    exact holds_startConversion h
  by_cases hS : c = 'S'.toUInt8
  · subst hS
    exact holds_stopConversion h
  by_cases hM : c = 'M'.toUInt8
  · subst hM
    exact holds_measureConversion h
  have hkeep : Keeps (fun a b => IdleStopped a → IdleStopped b) (dispatch c) :=
    (pipe_dispatch hR hS hM).mono fun _ _ => IdleStopped.of_pipe
  exact (hkeep.holds (fun _ _ => IdleStopped.stable) (fun _ h => h) h).mono fun _ _ _ _ => trivial

end Holds

end Stmdsp
