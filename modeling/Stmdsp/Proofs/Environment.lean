import Stmdsp.Model.HostRun
import Stmdsp.Proofs.Pipeline

/-! The steps of the system that are not the command thread's are steps of the
environment its runs assume. -/

namespace Stmdsp

/-- What a step leaves alone that neither stores results nor plays samples: the mark of
`Out` and the generator's flag, too. -/
structure Kept (d d' : Device) : Prop extends Fixed d d' where
  outModified : d'.Out.mModified = d.Out.mModified
  dacIsDone : d'.dacIsDone = d.dacIsDone

theorem Kept.refl (d : Device) : Kept d d := { Fixed.refl d with outModified := rfl, dacIsDone := rfl }

section Environment

variable {k : Layout} {s s' : Sys} {a : SysAct} {d : Device}

/-! ### The ADC interrupt -/

theorem kept_postHalf (first second : ℕ) (buffer : Option ℕ) (d : Device) :
    Kept d (ConversionManager.postHalf first second buffer d) := by
  unfold ConversionManager.postHalf
  split
  · exact { Kept.refl d with inMark := .inr (.inl rfl) }
  · exact { Kept.refl d with inMark := .inr (.inr rfl) }

theorem kept_call (o : Operation) (buffer : Option ℕ) (d : Device) :
    Kept d (o.call buffer d).1 := by
  cases o with
  | adcReadHandler =>
    simp only [Operation.call, ConversionManager.adcReadHandler]
    split
    · exact { Kept.refl d with }
    · exact kept_postHalf _ _ _ d
  | adcReadHandlerMeasure =>
    exact { kept_postHalf MSG_CONVFIRST_MEASURE MSG_CONVSECOND_MEASURE buffer d with }

theorem kept_callback (d : Device) : Kept d (ADC.conversionCallback d).1 := by
  cases hop : d.adc.mOperation with
  | none =>
    rw [ADC.conversionCallback, hop]
    exact .refl d
  | some o =>
    obtain ⟨buffer, he⟩ := callback_some hop
    rw [he]
    exact kept_call o buffer d

theorem kept_serve (capture : Storage) (d : Device) :
    Kept d (ADC.serveDmaInterrupt capture d).1 := by
  have htransfer : ∀ t, Kept (ADC.transfer capture d) t → Kept d t := fun _ h => { h with }
  unfold ADC.serveDmaInterrupt
  cases d.adc.nextFull with
  | false => exact htransfer _ (kept_callback _)
  | true =>
    have hcall := htransfer _
      { kept_callback (ADC.setState .COMPLETE (ADC.transfer capture d)) with }
    simp only [if_true]
    split
    · exact { hcall with }
    · exact hcall

theorem kept_adcStep {capture : Storage} (h : s.adcStep k capture = some s') :
    Kept s.dev s'.dev := by
  obtain ⟨mem, hd⟩ := adcStep_dev h
  rw [hd]
  exact { kept_serve capture s.dev with }

/-! ### The other steps -/

theorem kept_runnerStep {a : RunnerAct} (h : s.runnerStep k a = some s') (ha : a ≠ .store) :
    Kept s.dev s'.dev := by
  unfold Sys.runnerStep at h
  split at h
  · cases h
    exact .refl _
  · split at h
    · cases h
      exact { Kept.refl s.dev with }
    · simp at h
  · rename_i msg ctx hr
    obtain ⟨hdev, -⟩ := beginMessage_effect (by rw [hr]; rfl) h
    rw [hdev]
    exact .refl _
  · split at h
    · cases h
      exact { Kept.refl s.dev with }
    · simp at h
  · cases h
    exact { Kept.refl s.dev with }
  · split at h
    · simp at h
    · cases h
      exact .refl _
  · cases h
    exact .refl _
  · split at h
    · rename_i hcall
      cases h
      obtain ⟨last, rfl⟩ := port_syscall_effect hcall
      exact { Kept.refl s.dev with }
    · simp at h
  · cases h
    exact { Kept.refl s.dev with }
  · exact absurd rfl ha
  · cases h
    exact { Kept.refl s.dev with }
  · simp at h

theorem kept_monitorStep (h : s.monitorStep = some s') : Kept s.dev s'.dev := by
  obtain ⟨mb, monitor, rfl⟩ := monitorStep_cases h
  exact { Kept.refl s.dev with }

theorem kept_faultStep {lr : UInt32} (h : s.faultStep k lr = some s') : Kept s.dev s'.dev := by
  obtain ⟨mem, hd⟩ := faultStep_dev h
  rw [hd]
  exact { Kept.refl s.dev with }

theorem kept_hardFault (lr : UInt32) (ctx : Option Context) (d : Device) :
    Kept d (HardFault_Handler k lr ctx d) := by
  obtain ⟨mem, aborts, -, em, entry, he⟩ := hardFault_dev k lr ctx d
  rw [he]
  exact { Kept.refl d with }

/-! ### Steps of the system -/

theorem kept_sysStep (h : sysStep k s a = some s') (hcomm : a ≠ .comm)
    (hstore : a ≠ .runner .store) (hdac : ∀ full, a ≠ .dac full) : Kept s.dev s'.dev := by
  replace h := sysStep_act h
  cases a with
  | comm => exact absurd rfl hcomm
  | host bytes =>
    cases h
    exact { Kept.refl s.dev with }
  | monitor => exact kept_monitorStep h
  | runner a => exact kept_runnerStep h fun ha => hstore (congrArg _ ha)
  | adc capture => exact kept_adcStep h
  | dac full => exact absurd rfl (hdac full)
  | memFault lr => exact kept_faultStep h
  | hardFault lr =>
    cases h
    exact kept_hardFault lr _ s.dev

theorem act_store (h : s.act k (.runner .store) = some s') :
    ∃ msg size p, s.runner = .returned msg size (some p) ∧ s' = s.beginStore msg size p := by
  have hstep : s.runnerStep k .store = some s' := h
  cases hr : s.runner with
  | returned msg size samples =>
    cases samples with
    | none => simp [Sys.runnerStep, hr] at hstep
    | some p =>
      simp only [Sys.runnerStep, hr, Option.some.injEq] at hstep
      exact ⟨msg, size, p, rfl, hstep.symm⟩
  | _ => simp [Sys.runnerStep, hr] at hstep

theorem fixed_beginStore (msg : Msg) (size : ℕ) (p : Ptr) :
    Fixed s.dev (s.beginStore msg size p).dev := by
  unfold Sys.beginStore
  dsimp only
  split
  · exact { Fixed.refl s.dev with outMark := .inr (.inl rfl) }
  · exact { Fixed.refl s.dev with outMark := .inr (.inr rfl) }

theorem fixed_sysStep (h : sysStep k s a = some s') (hcomm : a ≠ .comm) :
    Fixed s.dev s'.dev := by
  by_cases hstore : a = .runner .store
  · subst hstore
    obtain ⟨msg, size, p, -, rfl⟩ := act_store (sysStep_act h)
    exact fixed_beginStore msg size p
  by_cases hdac : ∃ full, a = .dac full
  · obtain ⟨full, rfl⟩ := hdac
    obtain ⟨-, rfl⟩ := act_dac (sysStep_act h)
    exact { Fixed.refl s.dev with }
  · exact (kept_sysStep h hcomm hstore (not_exists.mp hdac)).toFixed

/-- Every step of the system is one of the command thread, one of the host, or one of
the environment. -/
theorem env_of_sysStep (hreset : s.dev.mMailbox.reset = false) (h : sysStep k s a = some s') :
    a = .comm ∨
      (∃ bytes, s' = { s with dev := { s.dev with input := s.dev.input ++ bytes } }) ∨
      (Env s.dev s'.dev ∧ s'.comm = s.comm) := by
  by_cases hcomm : a = .comm
  · exact .inl hcomm
  have hfixed := fixed_sysStep h hcomm
  rcases (sysStep_effect hreset h).2 with hc | ⟨bytes, -, hhost⟩ | hframe
  · exact absurd hc hcomm
  · exact .inr (.inl ⟨bytes, hhost⟩)
  · exact .inr (.inr ⟨{ hframe.rely, hfixed with }, hframe.comm⟩)

/-! ### Guarantees of the command thread -/

/-- What its handlers satisfy at every interruption point, and leave when they end. -/
def Guarantees (rely : Device → Device → Prop) (I Q : Device → Prop) (s : Sys) : Prop :=
  match s.comm with
  | .idle => I s.dev ∧ Q s.dev
  | .running _ rest => Proc.Holds rely I (fun _ => Q) rest s.dev

section Guarantees

variable {rely : Device → Device → Prop} {I Q : Device → Prop}

theorem Guarantees.inv (h : Guarantees rely I Q s) : I s.dev := by
  unfold Guarantees at h
  split at h
  · exact h.1
  · exact h.inv

theorem Guarantees.post (h : Guarantees rely I Q s) (hcomm : s.comm = .idle) : Q s.dev := by
  rw [Guarantees, hcomm] at h
  exact h.2

/-- The rely condition holds of all that may come in between two steps of a handler, and
keeps what the handlers guarantee. -/
structure Stable (rely : Device → Device → Prop) (I Q : Device → Prop) : Prop where
  env : ∀ d d', Env d d' → rely d d'
  stream : ∀ d input trace, rely d { d with input := input, trace := trace }
  trans : ∀ a b c, rely a b → rely b c → rely a c
  inv : ∀ d d', rely d d' → I d → I d'
  post : ∀ d d', rely d d' → Q d → Q d'

theorem Guarantees.commStep (hr : Stable rely I Q)
    (hdispatch : ∀ c d, I d → Q d → Proc.Holds rely I (fun _ => Q) (dispatch c) d)
    (h : Guarantees rely I Q s) (hs : s.commStep = some s') : Guarantees rely I Q s' := by
  unfold Sys.commStep at hs
  unfold Guarantees at h
  split at hs
  · rename_i hcomm
    rw [hcomm] at h
    split at hs
    · simp at hs
    · cases hs
      have hrec := hr.stream s.dev
      exact hdispatch _ _ (hr.inv _ _ (hrec _ _) h.1) (hr.post _ _ (hrec _ _) h.2)
  · rename_i hcomm
    rw [hcomm] at h
    cases hs
    exact h
  · rename_i hcomm
    rw [hcomm] at h
    cases hs
    simpa only [Guarantees, hcomm] using h
  · rename_i c g u next hcomm
    rw [hcomm] at h
    split at hs
    · rename_i hg
      cases hs
      exact h.next (hr.env _ _ (.refl _)) hg
    · simp at hs

theorem Guarantees.stable (hr : Stable rely I Q) (h : Guarantees rely I Q s)
    (hrely : rely s.dev s'.dev) (hcomm : s'.comm = s.comm) : Guarantees rely I Q s' := by
  unfold Guarantees at *
  rw [hcomm]
  split at h
  · exact ⟨hr.inv _ _ hrely h.1, hr.post _ _ hrely h.2⟩
  · exact h.stable hrely hr.trans hr.inv fun _ => hr.post

theorem Guarantees.step (hr : Stable rely I Q)
    (hdispatch : ∀ c d, I d → Q d → Proc.Holds rely I (fun _ => Q) (dispatch c) d)
    (hreset : s.dev.mMailbox.reset = false) (h : Guarantees rely I Q s)
    (hs : sysStep k s a = some s') : Guarantees rely I Q s' := by
  rcases env_of_sysStep hreset hs with rfl | ⟨bytes, rfl⟩ | ⟨henv, hcomm⟩
  · exact h.commStep hr hdispatch (sysStep_act hs)
  · exact h.stable hr (hr.stream s.dev _ s.dev.trace) rfl
  · exact h.stable hr (hr.env _ _ henv) hcomm

end Guarantees

end Environment

end Stmdsp
