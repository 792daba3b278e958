import Stmdsp.Proofs.CommSteps

/-! One step of the system, as far as the conversion pipeline sees it: what an ADC
event does to the mailbox, and what every other step leaves alone. -/

namespace Stmdsp

open Proc

/-! ### ADC events -/

/-- The handler of ADC events, the messages waiting, and what happened to messages. -/
structure MailView where
  operation : Option Operation
  queue : List Msg
  conv : List ConvEvent

def Device.mail (d : Device) : MailView := ⟨d.adc.mOperation, d.mMailbox.queue, d.conv⟩

/-- What ADC event number `ev` does to handler and messages. -/
inductive AdcEffect (ev : ℕ) (v v' : MailView) : (aborted : Bool) → Prop where
  | ignored (hop : v.operation = none) (hv : v' = v) : AdcEffect ev v v' false
  | posted (code : ℕ) (hop : v.operation ≠ none) (hfree : v.queue.length < 2)
      (hv : v' = ⟨some .adcReadHandler, v.queue ++ [⟨code, ev⟩],
        v.conv ++ [.post ⟨code, ev⟩ .MSG_OK]⟩) : AdcEffect ev v v' false
  | reset (hop : v.operation = some .adcReadHandler) (hfull : 2 ≤ v.queue.length)
      (hv : v' = ⟨some .adcReadHandler, [], v.conv ++ [.reset ev v.queue, .abort]⟩) :
      AdcEffect ev v v' true
  /-- The measuring handler finds the mailbox full. -/
  | lost (msg : Msg) (hop : v.operation = some .adcReadHandlerMeasure) (hfull : 2 ≤ v.queue.length)
      (hv : v' = ⟨some .adcReadHandler, v.queue, v.conv ++ [.post msg .MSG_TIMEOUT]⟩) :
      AdcEffect ev v v' false

section Callback

variable {d : Device}

theorem post_free (code : ℕ) (hr : d.mMailbox.reset = false) (hfree : d.mMailbox.queue.length < 2) :
    (ConversionManager.post code d).mMailbox.queue = d.mMailbox.queue ++ [⟨code, d.adc.events⟩] ∧
      (ConversionManager.post code d).mMailbox.reset = false ∧
      (ConversionManager.post code d).conv = d.conv ++ [.post ⟨code, d.adc.events⟩ .MSG_OK] := by
  obtain ⟨hok, hq, hr'⟩ := Mailbox.post_of_free (⟨code, d.adc.events⟩ : Msg) hr hfree
  exact ⟨hq, hr', by simp [ConversionManager.post, Device.logConv, hok]⟩

theorem post_full (code : ℕ) (hr : d.mMailbox.reset = false) (hfull : 2 ≤ d.mMailbox.queue.length) :
    (ConversionManager.post code d).mMailbox = d.mMailbox ∧
      (ConversionManager.post code d).conv =
        d.conv ++ [.post ⟨code, d.adc.events⟩ .MSG_TIMEOUT] := by
  have hp := Mailbox.post_of_full (⟨code, d.adc.events⟩ : Msg) hr hfull
  exact ⟨by simp [ConversionManager.post, hp],
    by simp [ConversionManager.post, Device.logConv, hp]⟩

/-- `postHalf` posts one of its two codes, on a device that differs in the mark of
`In` alone. -/
theorem postHalf_eq (first second : ℕ) (buffer : Option ℕ) (d : Device) :
    ∃ code b, b.mSize = d.In.mSize ∧
      ConversionManager.postHalf first second buffer d =
        ConversionManager.post code { d with In := b } := by
  unfold ConversionManager.postHalf
  split
  · exact ⟨first, d.In.setModified, rfl, rfl⟩
  · exact ⟨second, d.In.setMidmodified, rfl, rfl⟩

theorem rely_postHalf (first second : ℕ) (buffer : Option ℕ) (d : Device) :
    Rely d (ConversionManager.postHalf first second buffer d) := by
  obtain ⟨code, b, hb, he⟩ := postHalf_eq first second buffer d
  rw [he]
  exact { Rely.refl d with inSize := hb }

/-- What every ADC handler leaves of the device. -/
structure Handled (d d' : Device) : Prop where
  rely : Rely d d'
  reset : d'.mMailbox.reset = false
  events : d'.adc.events = d.adc.events
  nextFull : d'.adc.nextFull = d.adc.nextFull

theorem adcReadHandler_effect (buffer : Option ℕ) (hr : d.mMailbox.reset = false)
    (hop : d.adc.mOperation = some .adcReadHandler) :
    AdcEffect d.adc.events d.mail (ConversionManager.adcReadHandler buffer d).1.mail
        (ConversionManager.adcReadHandler buffer d).2 ∧
      Handled d (ConversionManager.adcReadHandler buffer d).1 := by
  unfold ConversionManager.adcReadHandler
  by_cases hover : ConversionManager.overrun d = true
  · have hfull : 2 ≤ d.mMailbox.queue.length := by
      simpa [ConversionManager.overrun, Mailbox.chMBGetUsedCountI, Nat.succ_le_iff] using hover
    simp only [hover, if_true]
    refine ⟨.reset hop hfull ?_, ?_⟩
    · simp [Device.mail, ConversionManager.abort, ELFManager.unload, Device.logConv, hop,
        Mailbox.chMBResetI, Mailbox.chMBResumeX]
    · exact ⟨{ Rely.refl d with }, rfl, rfl, rfl⟩
  · have hfree : d.mMailbox.queue.length < 2 := by
      simpa [ConversionManager.overrun, Mailbox.chMBGetUsedCountI] using hover
    simp only [hover, Bool.false_eq_true, if_false]
    have hrely := rely_postHalf MSG_CONVFIRST MSG_CONVSECOND buffer d
    obtain ⟨code, b, hb, he⟩ := postHalf_eq MSG_CONVFIRST MSG_CONVSECOND buffer d
    obtain ⟨hq, hr', hc⟩ := post_free (d := { d with In := b }) code hr hfree
    rw [he] at hrely ⊢
    refine ⟨.posted code (by simp [Device.mail, hop]) hfree ?_, hrely, hr', rfl, rfl⟩
    rw [Device.mail, hq, hc]
    exact congrArg (MailView.mk · _ _) hop

theorem adcReadHandlerMeasure_effect (buffer : Option ℕ) (hr : d.mMailbox.reset = false)
    (hop : d.adc.mOperation = some .adcReadHandlerMeasure) :
    AdcEffect d.adc.events d.mail (ConversionManager.adcReadHandlerMeasure buffer d).1.mail
        (ConversionManager.adcReadHandlerMeasure buffer d).2 ∧
      Handled d (ConversionManager.adcReadHandlerMeasure buffer d).1 := by
  unfold ConversionManager.adcReadHandlerMeasure
  have hrely := rely_postHalf MSG_CONVFIRST_MEASURE MSG_CONVSECOND_MEASURE buffer d
  obtain ⟨code, b, hb, he⟩ := postHalf_eq MSG_CONVFIRST_MEASURE MSG_CONVSECOND_MEASURE buffer d
  rw [he] at hrely ⊢
  have hrely' : Rely d (ADC.setOperation .adcReadHandler
      (ConversionManager.post code { d with In := b })) :=
    { hrely with operation := by simp [ADC.setOperation, hop] }
  by_cases hfree : d.mMailbox.queue.length < 2
  · obtain ⟨hq, hr', hc⟩ := post_free (d := { d with In := b }) code hr hfree
    refine ⟨.posted code (by simp [Device.mail, hop]) hfree ?_, hrely', hr', rfl, rfl⟩
    exact congrArg₂ (MailView.mk _) hq hc
  · have hfull : 2 ≤ d.mMailbox.queue.length := by omega
    obtain ⟨hmb, hc⟩ := post_full (d := { d with In := b }) code hr hfull
    refine ⟨.lost ⟨code, d.adc.events⟩ hop hfull ?_, hrely', ?_, rfl, rfl⟩
    · exact congrArg₂ (MailView.mk _) (congrArg Mailbox.queue hmb) hc
    · exact (congrArg Mailbox.reset hmb).trans hr

theorem callback_some {o : Operation} (hop : d.adc.mOperation = some o) :
    ∃ buffer, ADC.conversionCallback d = o.call buffer d := by
  unfold ADC.conversionCallback
  simp only [hop]
  split
  · exact ⟨_, rfl⟩
  · exact ⟨_, rfl⟩

theorem callback_effect (hr : d.mMailbox.reset = false) :
    AdcEffect d.adc.events d.mail (ADC.conversionCallback d).1.mail (ADC.conversionCallback d).2 ∧
      Handled d (ADC.conversionCallback d).1 := by
  cases hop : d.adc.mOperation with
  | none =>
    have he : ADC.conversionCallback d = (d, false) := by simp [ADC.conversionCallback, hop]
    rw [he]
    exact ⟨.ignored hop rfl, .refl d, hr, rfl, rfl⟩
  | some o =>
    obtain ⟨buffer, he⟩ := callback_some hop
    rw [he]
    cases o with
    | adcReadHandler => exact adcReadHandler_effect buffer hr hop
    | adcReadHandlerMeasure => exact adcReadHandlerMeasure_effect buffer hr hop

end Callback

/-- An ADC interrupt on an active driver. -/
theorem serve_effect {d : Device} (capture : Storage) (hr : d.mMailbox.reset = false)
    (hact : d.adc.driver.state = .ACTIVE) :
    AdcEffect (d.adc.events + 1) d.mail (ADC.serveDmaInterrupt capture d).1.mail
        (ADC.serveDmaInterrupt capture d).2 ∧
      Rely d (ADC.serveDmaInterrupt capture d).1 ∧
      (ADC.serveDmaInterrupt capture d).1.mMailbox.reset = false ∧
      (ADC.serveDmaInterrupt capture d).1.adc.events = d.adc.events + 1 := by
  unfold ADC.serveDmaInterrupt
  cases hfull : d.adc.nextFull with
  | false =>
    obtain ⟨he, hh⟩ := callback_effect (d := ADC.transfer capture d) hr
    simp only [Bool.false_eq_true, if_false]
    refine ⟨he, Rely.trans ?_ hh.rely, hh.reset, hh.events⟩
    exact { Rely.refl d with }
  | true =>
    obtain ⟨he, hh⟩ := callback_effect (d := ADC.setState .COMPLETE (ADC.transfer capture d)) hr
    have hdriver := hh.rely.adcDriver
    simp only [if_true]
    rw [if_pos (by rw [hdriver]; rfl)]
    refine ⟨he, ?_, hh.reset, hh.events⟩
    -- The callback saw `ADC_COMPLETE`; afterwards the driver is as it was.
    refine { hh.rely with adcDriver := ?_ }
    have hdepth := congrArg Driver.depth hdriver
    calc
      _ = Driver.mk .ACTIVE d.adc.driver.depth := congrArg (Driver.mk .ACTIVE) hdepth
      _ = d.adc.driver := by rw [← hact]

/-! ### Steps of the system -/

/-- Every entry is a call of `abort`. -/
def OnlyAborts (l : List ConvEvent) : Prop := ∀ e ∈ l, e = .abort

/-- What one step does to the positions of messages. -/
inductive SysEffect (s s' : Sys) : SysAct → Prop where
  | comm (h : s.commStep = some s') : SysEffect s s' .comm
  | fetch (msg : Msg) (hm : s.monitor = .fetching) (hm' : s'.monitor = .sending msg)
      (hq : s.dev.mMailbox.queue = msg :: s'.dev.mMailbox.queue) (hrunner : s'.runner = s.runner)
      (hop : s'.dev.adc.mOperation = s.dev.adc.mOperation) (hconv : s'.dev.conv = s.dev.conv)
      (hev : s'.dev.adc.events = s.dev.adc.events) : SysEffect s s' .monitor
  | receive (msg : Msg) (hr : s.runner = .waiting) (hr' : s'.runner = .received msg)
      (hm : s.monitor = .sending msg) (hm' : s'.monitor = .fetching)
      (hmail : s'.dev.mail = ⟨s.dev.adc.mOperation, s.dev.mMailbox.queue,
        s.dev.conv ++ [.received msg]⟩)
      (hev : s'.dev.adc.events = s.dev.adc.events) : SysEffect s s' (.runner .receive)
  | adc (capture : Storage) (aborted : Bool) (hact : s.dev.adc.driver.state = .ACTIVE)
      (he : AdcEffect (s.dev.adc.events + 1) s.dev.mail s'.dev.mail aborted)
      (hev : s'.dev.adc.events = s.dev.adc.events + 1) (hm : s'.monitor = s.monitor)
      (hr : s'.runner.message = s.runner.message ∨ s'.runner.message = none) :
      SysEffect s s' (.adc capture)
  /-- Everything else moves no message, but may end the processing of one. -/
  | work (a : SysAct) (aborts : List ConvEvent) (ha : OnlyAborts aborts)
      (hmail : s'.dev.mail = ⟨s.dev.adc.mOperation, s.dev.mMailbox.queue, s.dev.conv ++ aborts⟩)
      (hev : s'.dev.adc.events = s.dev.adc.events) (hm : s'.monitor = s.monitor)
      (hr : s'.runner.message = s.runner.message ∨ s'.runner.message = none) : SysEffect s s' a

theorem SysEffect.of_same {s s' : Sys} {a : SysAct} (hmail : s'.dev.mail = s.dev.mail)
    (hev : s'.dev.adc.events = s.dev.adc.events) (hm : s'.monitor = s.monitor)
    (hr : s'.runner.message = s.runner.message ∨ s'.runner.message = none) : SysEffect s s' a :=
  .work a [] (by simp [OnlyAborts]) (by simpa [Device.mail] using hmail) hev hm hr

/-- What the command thread may rely on across a step that is not its own. -/
structure StepFrame (s s' : Sys) : Prop where
  rely : Rely s.dev s'.dev
  reset : s'.dev.mMailbox.reset = s.dev.mMailbox.reset
  comm : s'.comm = s.comm

theorem rely_logConv (e : ConvEvent) (d : Device) : Rely d (d.logConv e) :=
  { Rely.refl d with }

theorem rely_userWrites (w : UserWrites) (d : Device) : Rely d (w.apply d) :=
  { Rely.refl d with }

section RunnerSteps

variable {k : Layout} {s s' : Sys}

theorem beginMessage_effect {msg : Msg} {ctx : Context} (hr : s.runner.message = some msg)
    (h : s.beginMessage k msg ctx = some s') :
    s'.dev = s.dev ∧ s'.monitor = s.monitor ∧ s'.comm = s.comm ∧
      s'.runner.message = s.runner.message := by
  simp only [Sys.beginMessage] at h
  split at h
  · split at h
    · cases h
      exact ⟨rfl, rfl, rfl, hr.symm⟩
    · split at h
      · cases h
        exact ⟨rfl, rfl, rfl, hr.symm⟩
      · simp at h
  · cases h
    exact ⟨rfl, rfl, rfl, hr.symm⟩

theorem port_syscall_effect {n r0 now : UInt32} {d d' : Device}
    (h : port_syscall n r0 now d = some d') : ∃ last, d' = { d with tmLast := last } := by
  unfold port_syscall at h
  split at h
  · cases h
    exact ⟨d.tmLast, rfl⟩
  · split at h
    · cases h
      split
      · exact ⟨now, rfl⟩
      · exact ⟨_, rfl⟩
    · simp at h

/-- The runner works on the device; it keeps or ends its message and moves no other. -/
theorem runner_work {a : RunnerAct} {d : Device} {r : Runner} (hrely : Rely s.dev d)
    (hmail : d.mail = s.dev.mail) (hev : d.adc.events = s.dev.adc.events)
    (hreset : d.mMailbox.reset = s.dev.mMailbox.reset)
    (hr : r.message = s.runner.message ∨ r.message = none) :
    SysEffect s { s with dev := d, runner := r } (.runner a) ∧
      StepFrame s { s with dev := d, runner := r } :=
  ⟨.of_same hmail hev rfl hr, hrely, hreset, rfl⟩

theorem beginStore_effect {msg : Msg} {size : ℕ} {samples : Ptr}
    (hr : s.runner.message = some msg) :
    SysEffect s (s.beginStore msg size samples) (.runner .store) ∧
      StepFrame s (s.beginStore msg size samples) := by
  unfold Sys.beginStore
  dsimp only
  split
  · exact runner_work { Rely.refl s.dev with } rfl rfl rfl (.inl hr.symm)
  · exact runner_work { Rely.refl s.dev with } rfl rfl rfl (.inl hr.symm)

theorem copyBlock_effect {msg : Msg} {samples : Ptr} {base srcend w : ℕ}
    (hr : s.runner.message = some msg) :
    SysEffect s (s.copyBlock msg samples base srcend w) (.runner .copy) ∧
      StepFrame s (s.copyBlock msg samples base srcend w) := by
  refine runner_work { Rely.refl s.dev with } rfl rfl rfl ?_
  split
  · exact .inl hr.symm
  · exact .inr rfl

/-- The runner takes a message from the monitor, or keeps or ends the one it has. -/
theorem runner_effect {a : RunnerAct} (h : s.runnerStep k a = some s') :
    SysEffect s s' (.runner a) ∧ StepFrame s s' := by
  unfold Sys.runnerStep at h
  split at h
  · rename_i hrun
    cases h
    exact runner_work (.refl _) rfl rfl rfl (.inr rfl)
  · rename_i hrun
    split at h
    · rename_i msg hmon
      cases h
      exact ⟨.receive msg hrun rfl hmon rfl rfl rfl, rely_logConv _ _, rfl, rfl⟩
    · simp at h
  · rename_i msg ctx hrun
    obtain ⟨hd, hm, hc, hmsg⟩ := beginMessage_effect (by rw [hrun]; rfl) h
    refine ⟨.of_same (by rw [hd]) (by rw [hd]) hm (.inl hmsg), ?_, by rw [hd], hc⟩
    rw [hd]
    exact .refl _
  · rename_i msg size now ctx hrun
    split at h
    · cases h
      exact runner_work { Rely.refl s.dev with } rfl rfl rfl (.inl (by rw [hrun]; rfl))
    · simp at h
  · rename_i msg size _ ctx w hrun
    cases h
    exact runner_work (rely_userWrites w _) rfl rfl rfl (.inl (by rw [hrun]; rfl))
  · rename_i msg size ctx n r0 hrun
    split at h
    · simp at h
    · cases h
      exact runner_work (.refl _) rfl rfl rfl (.inl (by rw [hrun]; rfl))
  · rename_i msg size _ samples hrun
    cases h
    refine runner_work (.refl _) rfl rfl rfl (.inl ?_)
    rw [hrun]
    split <;> rfl
  · rename_i msg size ctx n r0 now hrun
    split at h
    · rename_i d hd
      cases h
      obtain ⟨last, rfl⟩ := port_syscall_effect hd
      exact runner_work { Rely.refl s.dev with } rfl rfl rfl (.inl (by rw [hrun]; rfl))
    · simp at h
  · rename_i msg size samples now hrun
    cases h
    exact runner_work { Rely.refl s.dev with } rfl rfl rfl (.inl (by rw [hrun]; rfl))
  · rename_i msg size samples hrun
    cases h
    exact beginStore_effect (by rw [hrun]; rfl)
  · rename_i msg samples base srcend w hrun
    cases h
    exact copyBlock_effect (by rw [hrun]; rfl)
  · simp at h

end RunnerSteps

/-! ### Interrupts and faults -/

section Exceptions

variable {k : Layout} {s s' : Sys}

/-- `abort` writes no more than an instruction of the algorithm. -/
theorem resetRunner_dev (k : Layout) (fpuStacked : Bool) (ctx : Option Context) (d : Device) :
    ∃ mem, (ConversionManager.resetRunner k fpuStacked ctx d).1 = { d with mem := mem } := by
  unfold ConversionManager.resetRunner
  split
  · split
    · dsimp only
      split
      · exact ⟨d.mem, rfl⟩
      · split
        · exact ⟨_, rfl⟩
        · exact ⟨d.mem, rfl⟩
    · exact ⟨d.mem, rfl⟩
  · exact ⟨d.mem, rfl⟩

theorem moveStack_message (newpsp : UInt32) (r : Runner) :
    (r.moveStack newpsp).message = r.message := by
  cases r <;> rfl

/-- What the return from an exception leaves of the rest of the system. -/
theorem resume_frame (s : Sys) (d : Device) (r : Resume) :
    (s.resume d r).dev = d ∧ (s.resume d r).monitor = s.monitor ∧ (s.resume d r).comm = s.comm ∧
      ((s.resume d r).runner.message = s.runner.message ∨ (s.resume d r).runner.message = none) := by
  cases r with
  | untouched => exact ⟨rfl, rfl, rfl, .inl rfl⟩
  | restart newpsp => exact ⟨rfl, rfl, rfl, .inr rfl⟩
  | again newpsp => exact ⟨rfl, rfl, rfl, .inl (moveStack_message newpsp s.runner)⟩
  | fault => exact ⟨rfl, rfl, rfl, .inl rfl⟩

theorem adcStep_cases {capture : Storage} (h : s.adcStep k capture = some s') :
    s.dev.adc.driver.state = .ACTIVE ∧
      ((ADC.serveDmaInterrupt capture s.dev).2 = true ∧
        s' = s.resume
          (ConversionManager.resetRunner k true (s.runner.context k)
            (ADC.serveDmaInterrupt capture s.dev).1).1
          (ConversionManager.resetRunner k true (s.runner.context k)
            (ADC.serveDmaInterrupt capture s.dev).1).2 ∨
      (ADC.serveDmaInterrupt capture s.dev).2 = false ∧
        s' = { s with dev := (ADC.serveDmaInterrupt capture s.dev).1 }) := by
  unfold Sys.adcStep at h
  split at h
  · rename_i hact
    refine ⟨hact, ?_⟩
    split at h
    · rename_i d hserve
      rw [hserve]
      exact .inl ⟨rfl, (Option.some.inj h).symm⟩
    · rename_i d hserve
      rw [hserve]
      exact .inr ⟨rfl, (Option.some.inj h).symm⟩
  · simp at h

theorem faultStep_cases {lr : UInt32} (h : s.faultStep k lr = some s') :
    ∃ ctx, s.runner.context k = some ctx ∧
      s' = s.resume (MemManage_Handler k lr (some ctx) s.dev).1
        (MemManage_Handler k lr (some ctx) s.dev).2 := by
  unfold Sys.faultStep at h
  split at h
  · simp at h
  · rename_i ctx hctx
    exact ⟨ctx, hctx, (Option.some.inj h).symm⟩

/-- An ADC interrupt works on the device; with an abort, also on the algorithm's memory. -/
theorem adcStep_dev {capture : Storage} (h : s.adcStep k capture = some s') :
    ∃ mem, s'.dev = { (ADC.serveDmaInterrupt capture s.dev).1 with mem := mem } := by
  rcases (adcStep_cases h).2 with ⟨-, rfl⟩ | ⟨-, rfl⟩
  · obtain ⟨mem, hd⟩ := resetRunner_dev k true (s.runner.context k)
      (ADC.serveDmaInterrupt capture s.dev).1
    exact ⟨mem, (resume_frame s _ _).1.trans hd⟩
  · exact ⟨_, rfl⟩

theorem faultStep_dev {lr : UInt32} (h : s.faultStep k lr = some s') :
    ∃ mem, s'.dev = { ConversionManager.abort s.dev with mem := mem } := by
  obtain ⟨ctx, -, rfl⟩ := faultStep_cases h
  obtain ⟨mem, hd⟩ :=
    resetRunner_dev k (lr &&& 0x10 == 0) (some ctx) (ConversionManager.abort s.dev)
  exact ⟨mem, (resume_frame s _ _).1.trans hd⟩

/-- What an ADC interrupt does, whether it aborts or not. -/
theorem adcStep_spec {capture : Storage} (hreset : s.dev.mMailbox.reset = false)
    (h : s.adcStep k capture = some s') :
    ∃ aborted, s.dev.adc.driver.state = .ACTIVE ∧
      AdcEffect (s.dev.adc.events + 1) s.dev.mail s'.dev.mail aborted ∧
      s'.dev.adc.events = s.dev.adc.events + 1 ∧ s'.monitor = s.monitor ∧
      (s'.runner.message = s.runner.message ∨ s'.runner.message = none) ∧ StepFrame s s' := by
  obtain ⟨hact, hcases⟩ := adcStep_cases h
  obtain ⟨he, hrely, hr, hev⟩ := serve_effect capture hreset hact
  generalize ADC.serveDmaInterrupt capture s.dev = served at he hrely hr hev hcases
  obtain ⟨d, aborted⟩ := served
  refine ⟨aborted, hact, ?_⟩
  rcases hcases with ⟨rfl, rfl⟩ | ⟨rfl, rfl⟩
  · obtain ⟨mem, hd⟩ := resetRunner_dev k true (s.runner.context k) d
    obtain ⟨hdev, hm, hc, hrun⟩ := resume_frame s
      (ConversionManager.resetRunner k true (s.runner.context k) d).1
      (ConversionManager.resetRunner k true (s.runner.context k) d).2
    replace hdev := hdev.trans hd
    rw [hdev]
    refine ⟨he, hev, hm, hrun, ?_, ?_, hc⟩
    · rw [hdev]
      exact { hrely with }
    · rw [hdev]
      exact hr.trans hreset.symm
  · exact ⟨he, hev, rfl, .inl rfl, hrely, hr.trans hreset.symm, rfl⟩

theorem rely_abort (d : Device) : Rely d (ConversionManager.abort d) :=
  { Rely.refl d with }

theorem fault_effect {lr : UInt32} (h : s.faultStep k lr = some s') :
    SysEffect s s' (.memFault lr) ∧ StepFrame s s' := by
  obtain ⟨ctx, -, rfl⟩ := faultStep_cases h
  obtain ⟨mem, hd⟩ :=
    resetRunner_dev k (lr &&& 0x10 == 0) (some ctx) (ConversionManager.abort s.dev)
  obtain ⟨hdev, hm, hc, hrun⟩ := resume_frame s (MemManage_Handler k lr (some ctx) s.dev).1
    (MemManage_Handler k lr (some ctx) s.dev).2
  replace hdev := hdev.trans hd
  refine ⟨.work _ [.abort] (by simp [OnlyAborts]) ?_ ?_ hm hrun, ?_, ?_, hc⟩
  · rw [hdev]
    rfl
  · rw [hdev]
    rfl
  · rw [hdev]
    exact { rely_abort s.dev with }
  · rw [hdev]
    rfl

theorem hardFault_dev (k : Layout) (lr : UInt32) (ctx : Option Context) (d : Device) :
    ∃ mem aborts, OnlyAborts aborts ∧ ∃ em entry, HardFault_Handler k lr ctx d =
      { d with mem := mem, em := em, mEntry := entry, conv := d.conv ++ aborts } := by
  unfold HardFault_Handler
  split
  · obtain ⟨mem, hmem⟩ := resetRunner_dev k (k.hardFaultReturn &&& 0x10 == 0) ctx
      (ConversionManager.abort d)
    refine ⟨mem, [.abort], by simp [OnlyAborts], d.em.add .ConversionAborted, 0, ?_⟩
    rw [MemManage_Handler, hmem]
    rfl
  · exact ⟨d.mem, [], by simp [OnlyAborts], d.em, d.mEntry, by simp⟩

theorem hardFault_effect (lr : UInt32) :
    SysEffect s { s with
        dev := HardFault_Handler k lr (s.runner.context k) s.dev, dead := true } (.hardFault lr) ∧
      StepFrame s { s with
        dev := HardFault_Handler k lr (s.runner.context k) s.dev, dead := true } := by
  obtain ⟨mem, aborts, ha, em, entry, he⟩ := hardFault_dev k lr (s.runner.context k) s.dev
  rw [he]
  exact ⟨.work _ aborts ha rfl rfl rfl (.inl rfl),
    { Rely.refl s.dev with }, rfl, rfl⟩

/-- The monitor thread writes the mailbox only. -/
theorem monitorStep_cases (h : s.monitorStep = some s') :
    ∃ mb monitor, s' = { s with dev := { s.dev with mMailbox := mb }, monitor := monitor } := by
  unfold Sys.monitorStep at h
  split at h
  · simp at h
  · split at h
    · cases h
      exact ⟨_, _, rfl⟩
    · cases h
      exact ⟨_, _, rfl⟩
    · simp at h

theorem monitor_effect (hreset : s.dev.mMailbox.reset = false) (h : s.monitorStep = some s') :
    SysEffect s s' .monitor ∧ StepFrame s s' := by
  unfold Sys.monitorStep at h
  split at h
  · simp at h
  · rename_i hmon
    split at h
    · rename_i msg mb hfetch
      cases h
      obtain ⟨hq, hr⟩ := Mailbox.fetch_message hfetch
      exact ⟨.fetch msg hmon rfl hq rfl rfl rfl rfl,
        { Rely.refl s.dev with }, hr, rfl⟩
    · rename_i hfetch
      simp [Mailbox.chMBFetchTimeoutS, hreset] at hfetch
      split at hfetch <;> simp at hfetch
    · simp at h

theorem dac_effect {full : Bool} :
    SysEffect s { s with dev := dacEndCallback full s.dev } (.dac full) ∧
      StepFrame s { s with dev := dacEndCallback full s.dev } :=
  ⟨.of_same rfl rfl rfl (.inl rfl),
    { Rely.refl s.dev with }, rfl, rfl⟩

end Exceptions

/-! ### All steps -/

section Steps

variable {k : Layout} {s s' : Sys} {a : SysAct}

theorem sysStep_alive (h : sysStep k s a = some s') : s.dead = false := by
  unfold sysStep at h
  split at h
  · simp at h
  · rename_i hd
    simpa using hd

theorem sysStep_act (h : sysStep k s a = some s') : s.act k a = some s' := by
  have halive := sysStep_alive h
  unfold sysStep at h
  rwa [if_neg (by simp [halive])] at h

theorem act_dac {full : Bool} (h : s.act k (.dac full) = some s') :
    DAC.isSigGenRunning s.dev = true ∧ s' = { s with dev := dacEndCallback full s.dev } := by
  simp only [Sys.act] at h
  split at h
  · rename_i hrun
    exact ⟨hrun, (Option.some.inj h).symm⟩
  · simp at h

theorem sysStep_effect (hreset : s.dev.mMailbox.reset = false) (h : sysStep k s a = some s') :
    SysEffect s s' a ∧ (a = .comm ∨ (∃ bytes, a = .host bytes ∧
      s' = { s with dev := { s.dev with input := s.dev.input ++ bytes } }) ∨ StepFrame s s') := by
  replace h := sysStep_act h
  cases a with
  | host bytes =>
    cases h
    exact ⟨.of_same rfl rfl rfl (.inl rfl), .inr (.inl ⟨bytes, rfl, rfl⟩)⟩
  | comm => exact ⟨.comm h, .inl rfl⟩
  | monitor => exact (monitor_effect hreset h).imp_right fun hf => .inr (.inr hf)
  | runner a => exact (runner_effect h).imp_right fun hf => .inr (.inr hf)
  | adc capture =>
    obtain ⟨aborted, hact, he, hev, hm, hr, hf⟩ := adcStep_spec hreset h
    exact ⟨.adc capture aborted hact he hev hm hr, .inr (.inr hf)⟩
  | memFault lr => exact (fault_effect h).imp_right fun hf => .inr (.inr hf)
  | dac full =>
    obtain ⟨-, rfl⟩ := act_dac h
    exact dac_effect.imp_right fun hf => .inr (.inr hf)
  | hardFault lr =>
    cases h
    exact (hardFault_effect lr).imp_right fun hf => .inr (.inr hf)

/-- A step that is not the command thread's, as its handlers see it. -/
theorem sysStep_interference (hreset : s.dev.mMailbox.reset = false)
    (h : sysStep k s a = some s') (ha : a ≠ .comm) :
    Interference s.dev s'.dev ∧ s'.comm = s.comm ∧ s'.dev.mMailbox.reset = false := by
  rcases (sysStep_effect hreset h).2 with rfl | ⟨bytes, -, rfl⟩ | hf
  · exact absurd rfl ha
  · exact ⟨⟨rfl, rfl, Iff.rfl⟩, rfl, hreset⟩
  · exact ⟨hf.rely.interference, hf.comm, hf.reset.trans hreset⟩

end Steps

/-! ### Steps of the command thread -/

/-- What is left of a handler leaves the mailbox alone and keeps `IdleStopped`. -/
def CommSafe (s : Sys) : Prop :=
  match s.comm with
  | .idle => IdleStopped s.dev
  | .running _ rest =>
    Keeps SameMail rest ∧ Holds Interference IdleStopped (fun _ _ => True) rest s.dev

theorem CommSafe.idleStopped {s : Sys} (h : CommSafe s) : IdleStopped s.dev := by
  unfold CommSafe at h
  split at h
  · exact h
  · exact h.2.inv

theorem CommSafe.stable {s s' : Sys} (h : CommSafe s) (hi : Interference s.dev s'.dev)
    (hc : s'.comm = s.comm) : CommSafe s' := by
  unfold CommSafe at *
  rw [hc]
  split at h
  · exact h.stable hi
  · refine ⟨h.1, h.2.stable hi Interference.trans (fun _ _ => IdleStopped.stable) ?_⟩
    exact fun _ _ _ _ _ => trivial

/-- A step of the command thread moves no message. -/
theorem CommSafe.step {s s' : Sys} (h : CommSafe s) (hs : s.commStep = some s') :
    CommSafe s' ∧ SameMail s.dev s'.dev ∧ s'.monitor = s.monitor ∧ s'.runner = s.runner := by
  unfold Sys.commStep at hs
  unfold CommSafe at h
  split at hs
  · rename_i hcomm
    rw [hcomm] at h
    split at hs
    · simp at hs
    · rename_i c rest hin
      cases hs
      exact ⟨⟨mail_dispatch c, holds_dispatch c h⟩, ⟨rfl, rfl, rfl⟩, rfl, rfl⟩
  · rename_i hcomm
    rw [hcomm] at h
    cases hs
    exact ⟨h.2.inv, ⟨rfl, rfl, rfl⟩, rfl, rfl⟩
  · rename_i hcomm
    rw [hcomm] at h
    cases hs
    refine ⟨?_, ⟨rfl, rfl, rfl⟩, rfl, rfl⟩
    simpa only [CommSafe, hcomm] using h
  · rename_i c g u next hcomm
    rw [hcomm] at h
    split at hs
    · rename_i hg
      cases hs
      obtain ⟨hmail, hkeep⟩ := h.1 s.dev hg
      exact ⟨⟨hkeep, h.2.next (.refl _) hg⟩, hmail, rfl, rfl⟩
    · simp at hs

end Stmdsp
