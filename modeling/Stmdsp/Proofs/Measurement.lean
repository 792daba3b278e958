import Stmdsp.Lib.Since
import Stmdsp.Model.MeasureRun
import Stmdsp.Proofs.Clock
import Stmdsp.Proofs.Events
import Stmdsp.Proofs.RunnerSteps

/-! The measurement of one block. The handler of ADC events is a pointer that commands and
the interrupt itself rewrite; what it points at is decided by the history since the last
accepted 'M'. -/

namespace Stmdsp

open Proc

/-! ### Events -/

/-- The message a handler requests for the second half, if `full`, and else for the first. -/
def Operation.code (o : Operation) (full : Bool) : ℕ :=
  match o with
  | .adcReadHandler => if full then MSG_CONVSECOND else MSG_CONVFIRST
  | .adcReadHandlerMeasure => if full then MSG_CONVSECOND_MEASURE else MSG_CONVFIRST_MEASURE

/-- Handler `o` takes the event of that half: it requests its message, or is the normal one
and finds an overrun. The next event is the normal handler's. -/
structure Takes (o : Operation) (full : Bool) (d d' : Device) : Prop where
  requests : (∃ status, d'.conv = d.conv ++ [.post ⟨o.code full, d'.adc.events⟩ status]) ∨
    o = .adcReadHandler ∧ ∃ lost, d'.conv = d.conv ++ [.reset d'.adc.events lost, .abort]
  operation : d'.adc.mOperation = some .adcReadHandler

section Event

variable {d : Device} {o : Operation}

theorem post_requests (code : ℕ) (d : Device) :
    ∃ status, (ConversionManager.post code d).conv =
      d.conv ++ [.post ⟨code, (ConversionManager.post code d).adc.events⟩ status] :=
  ⟨_, rfl⟩

theorem postHalf_requests (first second : ℕ) (full : Bool) (hne : d.In.middata ≠ d.In.data) :
    ∃ b, ConversionManager.postHalf first second
        (some (if full then d.In.middata else d.In.data)) d =
      ConversionManager.post (if full then second else first) { d with In := b } := by
  unfold ConversionManager.postHalf
  cases full with
  | false => exact ⟨d.In.setModified, if_pos rfl⟩
  | true => exact ⟨d.In.setMidmodified, if_neg (by simpa using hne)⟩

theorem takes_call (full : Bool) (hop : d.adc.mOperation = some o) (hne : d.In.middata ≠ d.In.data) :
    Takes o full d (o.call (some (if full then d.In.middata else d.In.data)) d).1 := by
  cases o with
  | adcReadHandler =>
    simp only [Operation.call, ConversionManager.adcReadHandler]
    split
    · refine ⟨.inr ⟨rfl, d.mMailbox.queue, ?_⟩, hop⟩
      simp [ConversionManager.abort, ELFManager.unload, Device.logConv]
    · obtain ⟨b, hpost⟩ := postHalf_requests MSG_CONVFIRST MSG_CONVSECOND full hne
      rw [hpost]
      exact ⟨.inl (post_requests _ { d with In := b }), hop⟩
  | adcReadHandlerMeasure =>
    obtain ⟨b, hpost⟩ :=
      postHalf_requests MSG_CONVFIRST_MEASURE MSG_CONVSECOND_MEASURE full hne
    simp only [Operation.call, ConversionManager.adcReadHandlerMeasure, hpost]
    exact ⟨.inl (post_requests _ { d with In := b }), rfl⟩

theorem takes_callback (full : Bool) (hop : d.adc.mOperation = some o)
    (hbuf : d.adc.mCurrentBuffer = some d.In.data) (hsize : d.adc.mCurrentBufferSize = d.In.mSize)
    (hne : d.In.middata ≠ d.In.data) (hfull : d.adc.driver.state = .COMPLETE ↔ full = true) :
    Takes o full d (ADC.conversionCallback d).1 := by
  have hmid : d.adc.mCurrentBuffer.map (· + d.adc.mCurrentBufferSize / 2) = some d.In.middata := by
    rw [hbuf, hsize]
    rfl
  have hcall := takes_call full hop hne
  unfold ADC.conversionCallback
  rw [hop]
  dsimp only
  rw [hmid, hbuf]
  cases full with
  | false => rwa [if_neg (by simpa using hfull)]
  | true => rwa [if_pos (hfull.mpr rfl)]

theorem takes_serve (capture : Storage) (hop : d.adc.mOperation = some o)
    (hact : d.adc.driver.state = .ACTIVE) (hbuf : d.adc.mCurrentBuffer = some d.In.data)
    (hsize : d.adc.mCurrentBufferSize = d.In.mSize) (hne : d.In.middata ≠ d.In.data) :
    Takes o d.adc.nextFull d (ADC.serveDmaInterrupt capture d).1 := by
  unfold ADC.serveDmaInterrupt
  cases hfull : d.adc.nextFull with
  | false =>
    have h := takes_callback (d := ADC.transfer capture d) false hop hbuf hsize hne
      (by simp [ADC.transfer, hact])
    exact ⟨h.requests, h.operation⟩
  | true =>
    have h := takes_callback (d := ADC.setState .COMPLETE (ADC.transfer capture d)) true
      hop hbuf hsize hne (by simp [ADC.setState])
    simp only [if_true]
    split
    · exact ⟨h.requests, h.operation⟩
    · exact ⟨h.requests, h.operation⟩

end Event

/-! ### Steps -/

/-- The next pass of the loop runs the handler of `c` with the run status it asserts. -/
def Accepted (c : UInt8) (status : RunStatus) (p : Device × MeasureAct) : Prop :=
  p.2.isPass = true ∧ nextCommand p.1 = some c ∧ p.1.runStatus = status

instance (c : UInt8) (status : RunStatus) : DecidablePred (Accepted c status) :=
  fun _ => inferInstanceAs (Decidable (_ ∧ _ ∧ _))

def AcceptsMeasure : Device × MeasureAct → Prop := Accepted 'M'.toUInt8 .Running
def AcceptsRun : Device × MeasureAct → Prop := Accepted 'R'.toUInt8 .Idle
def AcceptsHalt : Device × MeasureAct → Prop := Accepted 'S'.toUInt8 .Running

instance : DecidablePred AcceptsMeasure := inferInstanceAs (DecidablePred (Accepted _ _))

/-- An event uses up a pending measurement, and the end of the run cancels it. -/
def EndsMeasure (p : Device × MeasureAct) : Prop := p.2.isEvent = true ∨ AcceptsHalt p

/-- A requested measurement. -/
def ConvEvent.isMeasured : ConvEvent → Bool
  | .post msg _ => MSG_FOR_MEASURE msg.code
  | _ => false

def measuredRequests (conv : List ConvEvent) : ℕ := conv.countP (·.isMeasured)

/-- What one step is to the selected handler. -/
inductive MeasureEffect (d : Device) (a : MeasureAct) (d' : Device) : Prop where
  | keeps (hop : d'.adc.mOperation = d.adc.mOperation) (hstatus : d'.runStatus = d.runStatus)
      (hconv : measuredRequests d'.conv = measuredRequests d.conv)
      (hmeasure : ¬ AcceptsMeasure (d, a)) (hends : ¬ EndsMeasure (d, a))
  | start (ha : AcceptsRun (d, a)) (hop : d'.adc.mOperation = some .adcReadHandler)
      (hstatus : d'.runStatus = .Running) (hconv : d'.conv = d.conv)
  | stop (ha : AcceptsHalt (d, a)) (hop : d'.adc.mOperation = none) (hstatus : d'.runStatus = .Idle)
      (hconv : d'.conv = d.conv)
  | measure (ha : AcceptsMeasure (d, a)) (hop : d'.adc.mOperation = some .adcReadHandlerMeasure)
      (hstatus : d'.runStatus = d.runStatus) (hconv : d'.conv = d.conv)
  | event (o : Operation) (ha : a.isEvent = true) (hop : d.adc.mOperation = some o)
      (htakes : Takes o d.adc.nextFull d d') (hstatus : d'.runStatus = d.runStatus)

section Steps

variable {d d' : Device} {a : MeasureAct} {c : UInt8} {status : RunStatus} {rest : List UInt8}

theorem accepted_iff_of_input (hin : d.input = c :: rest) {x : UInt8} :
    Accepted x status (d, .comm) ↔ c = x ∧ d.runStatus = status := by
  simp [Accepted, MeasureAct.isPass, nextCommand, hin]

theorem not_accepted_of_act (ha : a.isPass = false) : ¬ Accepted c status (d, a) := by
  rintro ⟨hpass, -⟩
  rw [ha] at hpass
  cases hpass

theorem not_accepted_of_event (ha : a.isEvent = true) : ¬ Accepted c status (d, a) := by
  cases a with
  | adc capture => exact not_accepted_of_act rfl
  | _ => cases ha

theorem Accepted.command_eq {c' : UInt8} {status' : RunStatus} (h : Accepted c status (d, a))
    (h' : Accepted c' status' (d, a)) : c = c' :=
  Option.some.inj (h.2.1.symm.trans h'.2.1)

theorem measureConversion_rejected (h : d.runStatus ≠ .Running) :
    measureConversion.run d = .ok () { d with em := d.em.add .NotRunning } := by
  simp [measureConversion, EM.assert, h]

theorem measureConversion_accepted (h : d.runStatus = .Running) :
    measureConversion.run d = .ok () (ADC.setOperation .adcReadHandlerMeasure d) := by
  simp [measureConversion, EM.assert, h, ConversionManager.startMeasurement]

/-- A step that is no pass and no event. -/
theorem MeasureEffect.of_foreign (hpass : a.isPass = false) (hevent : a.isEvent = false)
    (hop : d'.adc.mOperation = d.adc.mOperation) (hstatus : d'.runStatus = d.runStatus)
    (hconv : measuredRequests d'.conv = measuredRequests d.conv) : MeasureEffect d a d' := by
  refine .keeps hop hstatus hconv (not_accepted_of_act hpass) ?_
  rintro (he | hstop)
  · exact Bool.false_ne_true (hevent.symm.trans he)
  · exact not_accepted_of_act hpass hstop

/-- A pass whose handler changes neither the pipeline nor its history. -/
theorem MeasureEffect.of_pass (hin : d.input = c :: rest)
    (hM : c = 'M'.toUInt8 → d.runStatus ≠ .Running) (hS : c = 'S'.toUInt8 → d.runStatus ≠ .Running)
    (hop : d'.adc.mOperation = d.adc.mOperation) (hstatus : d'.runStatus = d.runStatus)
    (hconv : d'.conv = d.conv) : MeasureEffect d .comm d' := by
  refine .keeps hop hstatus (by rw [hconv]) ?_ ?_
  · intro ha
    obtain ⟨hc, hrun⟩ := (accepted_iff_of_input hin).mp ha
    exact hM hc hrun
  · rintro (he | ha)
    · cases he
    · obtain ⟨hc, hrun⟩ := (accepted_iff_of_input hin).mp ha
      exact hS hc hrun

theorem measureEffect_R (hin : d.input = 'R'.toUInt8 :: rest)
    (h : startConversion.run (received d 'R'.toUInt8 rest) = .ok () d') :
    MeasureEffect d .comm d' := by
  by_cases hidle : (received d 'R'.toUInt8 rest).runStatus = .Idle
  · obtain ⟨-, -, -, c₁, c₂, -, -, rfl⟩ := startConversion_ok hidle h
    exact .start ((accepted_iff_of_input hin).mpr ⟨rfl, hidle⟩) rfl rfl rfl
  · rw [startConversion_rejected hidle] at h
    cases h
    exact .of_pass hin (fun hc => absurd hc (by decide)) (fun hc => absurd hc (by decide)) rfl rfl rfl

theorem measureEffect_S (hin : d.input = 'S'.toUInt8 :: rest)
    (h : stopConversion.run (received d 'S'.toUInt8 rest) = .ok () d') :
    MeasureEffect d .comm d' := by
  by_cases hrun : (received d 'S'.toUInt8 rest).runStatus = .Running
  · obtain ⟨-, -, rfl⟩ := stopConversion_ok hrun h
    exact .stop ((accepted_iff_of_input hin).mpr ⟨rfl, hrun⟩) rfl rfl rfl
  · rw [stopConversion_rejected hrun] at h
    cases h
    exact .of_pass hin (fun hc => absurd hc (by decide)) (fun _ => hrun) rfl rfl rfl

theorem measureEffect_M (hin : d.input = 'M'.toUInt8 :: rest)
    (h : measureConversion.run (received d 'M'.toUInt8 rest) = .ok () d') :
    MeasureEffect d .comm d' := by
  by_cases hrun : (received d 'M'.toUInt8 rest).runStatus = .Running
  · rw [measureConversion_accepted hrun] at h
    cases h
    exact .measure ((accepted_iff_of_input hin).mpr ⟨rfl, hrun⟩) rfl rfl rfl
  · rw [measureConversion_rejected hrun] at h
    cases h
    exact .of_pass hin (fun _ => hrun) (fun hc => absurd hc (by decide)) rfl rfl rfl

theorem measureEffect_other (hin : d.input = c :: rest) (hR : c ≠ 'R'.toUInt8)
    (hS : c ≠ 'S'.toUInt8) (hM : c ≠ 'M'.toUInt8)
    (h : (dispatch c).run (received d c rest) = .ok () d') : MeasureEffect d .comm d' := by
  have hpipe := (pipe_dispatch hR hS hM).run (fun _ => ⟨rfl⟩)
    (fun _ _ _ hab hbc => ⟨hbc.view.trans hab.view⟩) (received d c rest)
  rw [h] at hpipe
  refine .of_pass hin (fun hc => absurd hc hM) (fun hc => absurd hc hS) ?_ ?_ ?_
  · exact congrArg PipeView.mOperation hpipe.view
  · exact congrArg PipeView.runStatus hpipe.view
  · exact congrArg PipeView.conv hpipe.view

theorem measureEffect_pass (h : CommunicationManager.threadComm.run d = .ok () d') :
    MeasureEffect d .comm d' := by
  rw [threadComm_run] at h
  cases hin : d.input with
  | nil =>
    rw [hin] at h
    cases h
    refine .keeps rfl rfl rfl ?_ ?_
    · simp [AcceptsMeasure, Accepted, nextCommand, hin]
    · simp [EndsMeasure, AcceptsHalt, Accepted, nextCommand, hin, MeasureAct.isEvent]
  | cons c rest =>
    rw [hin] at h
    by_cases hR : c = 'R'.toUInt8
    · subst hR
      exact measureEffect_R hin h
    by_cases hS : c = 'S'.toUInt8
    · subst hS
      exact measureEffect_S hin h
    by_cases hM : c = 'M'.toUInt8
    · subst hM
      exact measureEffect_M hin h
    · exact measureEffect_other hin hR hS hM h

theorem Takes.measured {o : Operation} {full : Bool} (h : Takes o full d d') :
    measuredRequests d'.conv =
      measuredRequests d.conv + if o = .adcReadHandlerMeasure then 1 else 0 := by
  rcases h.requests with ⟨status, hconv⟩ | ⟨rfl, lost, hconv⟩
  · rw [hconv, measuredRequests, measuredRequests, List.countP_append]
    cases o <;> cases full <;> rfl
  · rw [hconv, measuredRequests, measuredRequests, List.countP_append]
    rfl

theorem Elsewhere.measured (h : Elsewhere d d') :
    measuredRequests d'.conv = measuredRequests d.conv := by
  obtain ⟨new, hconv, hnew⟩ := h.conv
  rw [hconv, measuredRequests, measuredRequests, List.countP_append, Nat.add_eq_left,
    List.countP_eq_zero]
  intro e he hmeasured
  cases e with
  | post msg status => exact hnew msg status he
  | _ => cases hmeasured

theorem commStep_of_measureStep (hreset : d.mMailbox.reset = false) (h : MeasureStep d a d') :
    ∃ c, CommStep d c d' := by
  cases a with
  | host bytes => exact ⟨.host bytes, h⟩
  | comm => exact ⟨.comm, h⟩
  | adc capture =>
    obtain ⟨hact, mem, rfl⟩ := h
    have hrely := (serve_effect capture hreset hact).2.1
    exact ⟨.env, { hrely with }⟩
  | env => exact ⟨.env, h.toRely⟩

theorem reset_measureStep (hreset : d.mMailbox.reset = false) (h : MeasureStep d a d') :
    d'.mMailbox.reset = false := by
  cases a with
  | host bytes =>
    obtain rfl := h
    exact hreset
  | comm =>
    have hsame : d'.mMailbox = d.mMailbox :=
      view_of_pass (fun _ _ s s' hs => (mail_step s s' hs).mMailbox) h
    rw [hsame]
    exact hreset
  | adc capture =>
    obtain ⟨hact, mem, rfl⟩ := h
    exact (serve_effect capture hreset hact).2.2.1
  | env => exact h.reset.trans hreset

/-- Between passes all lengths agree. -/
theorem agree_commStep {c : CommAct} (h : d.shape.Agree) (hs : CommStep d c d') :
    d'.shape.Agree := by
  cases c with
  | host bytes =>
    obtain rfl := hs
    exact h
  | comm =>
    rw [CommStep, threadComm_run] at hs
    cases hin : d.input with
    | nil =>
      rw [hin] at hs
      cases hs
      exact h
    | cons c rest =>
      rw [hin] at hs
      exact (shapes_dispatch (d := received d c rest) c h).run (fun _ => ⟨rfl⟩) hs
  | env =>
    have hshape := (SameShape.of_rely hs).shape
    rwa [hshape]

theorem measureEffect_adc {capture : Storage} {o : Operation} (hreset : d.mMailbox.reset = false)
    (hagree : d.shape.Agree) (hop : d.adc.mOperation = some o)
    (h : MeasureStep d (.adc capture) d') : MeasureEffect d (.adc capture) d' := by
  obtain ⟨hact, mem, rfl⟩ := h
  obtain ⟨hbuf, hsize, -, -, -⟩ := hagree.active hact
  have htakes := takes_serve capture hop hact hbuf hsize (hagree.toSteady.middata_ne hact)
  have hrely := (serve_effect capture hreset hact).2.1
  exact .event o rfl hop ⟨htakes.requests, htakes.operation⟩ hrely.runStatus

theorem measureEffect (hreset : d.mMailbox.reset = false) (hagree : d.shape.Agree)
    (hop : d.adc.driver.state = .ACTIVE → ∃ o, d.adc.mOperation = some o)
    (h : MeasureStep d a d') : MeasureEffect d a d' := by
  cases a with
  | host bytes =>
    obtain rfl := h
    exact .of_foreign rfl rfl rfl rfl rfl
  | comm => exact measureEffect_pass h
  | adc capture =>
    obtain ⟨o, ho⟩ := hop h.1
    exact measureEffect_adc hreset hagree ho h
  | env => exact .of_foreign rfl rfl (by rw [h.adc]) h.runStatus h.measured

end Steps

/-! ### Runs -/

/-- What the selected handler stands for. -/
structure MeasureInv (tr : List (Device × MeasureAct)) (d : Device) : Prop where
  reset : d.mMailbox.reset = false
  agree : d.shape.Agree
  coupled : d.converters.Coupled
  stopped : d.adc.mOperation = none ↔ d.runStatus = .Idle
  pending : d.adc.mOperation = some .adcReadHandlerMeasure ↔ Since AcceptsMeasure EndsMeasure tr
  count : measuredRequests d.conv +
    (if d.adc.mOperation = some .adcReadHandlerMeasure then 1 else 0) ≤ tr.countP (AcceptsMeasure ·)

section Runs

variable {b : Board} {tr : List (Device × MeasureAct)} {d d' : Device} {a : MeasureAct}

theorem measureInv_powerUp (b : Board) : MeasureInv [] (powerUp b) where
  reset := rfl
  agree := agree_powerUp b
  coupled := coupled_powerUp b
  stopped := ⟨fun _ => rfl, fun _ => rfl⟩
  pending := iff_of_false (by simp [powerUp]) not_since_nil
  count := le_rfl

theorem MeasureInv.ready_iff (h : MeasureInv tr d) :
    d.adc.mOperation = none ↔ d.adc.driver.state = .READY := by
  rw [h.stopped]
  rcases h.coupled.conversion with ⟨hidle, hready, -⟩ | ⟨hrun, hact, -⟩
  · exact ⟨fun _ => hready, fun _ => hidle⟩
  · constructor
    · intro hidle
      exact absurd (hidle.symm.trans hrun) (by decide)
    · intro hready
      exact absurd (hready.symm.trans hact) (by decide)

/-- A running converter has a handler. -/
theorem MeasureInv.selected (h : MeasureInv tr d) (hact : d.adc.driver.state = .ACTIVE) :
    ∃ o, d.adc.mOperation = some o := by
  rw [← Option.ne_none_iff_exists', Ne, h.ready_iff, hact]
  decide

theorem MeasureInv.step (h : MeasureInv tr d) (hs : MeasureStep d a d') :
    MeasureInv (tr ++ [(d, a)]) d' := by
  obtain ⟨c, hc⟩ := commStep_of_measureStep h.reset hs
  have hreset := reset_measureStep h.reset hs
  have hagree := agree_commStep h.agree hc
  have hcoupled := (converterEffect hc).coupled h.coupled
  have hpending := h.pending
  have hcount := h.count
  cases measureEffect h.reset h.agree h.selected hs with
  | keeps hop hstatus hconv hmeasure hends =>
    refine ⟨hreset, hagree, hcoupled, by rw [hop, hstatus]; exact h.stopped, ?_, ?_⟩
    · rw [hop, since_snoc_iff, or_iff_right hmeasure, and_iff_left hends]
      exact hpending
    · rw [hop, hconv, List.countP_append]
      omega
  | start ha hop hstatus hconv =>
    -- A stopped converter has no measurement pending.
    have hno : ¬ Since AcceptsMeasure EndsMeasure tr := by
      rw [← hpending, h.stopped.mpr ha.2.2]
      simp
    have hmeasure : ¬ AcceptsMeasure (d, a) := fun hm => absurd (hm.command_eq ha) (by decide)
    refine ⟨hreset, hagree, hcoupled, by simp [hop, hstatus], ?_, ?_⟩
    · rw [hop, since_snoc_iff, or_iff_right hmeasure]
      exact iff_of_false (by simp) fun hs => hno hs.1
    · rw [hop, hconv, List.countP_append]
      simp only [Option.some.injEq, reduceCtorEq, if_false]
      omega
  | stop ha hop hstatus hconv =>
    have hmeasure : ¬ AcceptsMeasure (d, a) := fun hm => absurd (hm.command_eq ha) (by decide)
    refine ⟨hreset, hagree, hcoupled, by simp [hop, hstatus], ?_, ?_⟩
    · rw [hop, since_snoc_iff, or_iff_right hmeasure]
      exact iff_of_false (by simp) fun hs => hs.2 (.inr ha)
    · rw [hop, hconv, List.countP_append]
      simp only [reduceCtorEq, if_false]
      omega
  | measure ha hop hstatus hconv =>
    refine ⟨hreset, hagree, hcoupled, ?_, ?_, ?_⟩
    · rw [hop, hstatus, ha.2.2]
      simp
    · rw [hop]
      exact iff_of_true rfl (since_last ha)
    · rw [hop, hconv, List.countP_append, List.countP_singleton, if_pos (decide_eq_true ha), if_pos rfl]
      omega
  | event o ha hop htakes hstatus =>
    have hmeasure : ¬ AcceptsMeasure (d, a) := not_accepted_of_event ha
    refine ⟨hreset, hagree, hcoupled, ?_, ?_, ?_⟩
    · rw [htakes.operation, hstatus, ← h.stopped, hop]
      simp
    · rw [htakes.operation, since_snoc_iff, or_iff_right hmeasure]
      exact iff_of_false (by simp) fun hs => hs.2 (.inl ha)
    · rw [hop] at hcount
      rw [htakes.operation, htakes.measured, List.countP_append]
      simp only [Option.some.injEq, reduceCtorEq, if_false] at hcount ⊢
      omega

theorem measureInv_run (h : MeasureRun b tr d) : MeasureInv tr d := by
  induction h with
  | nil => exact measureInv_powerUp b
  | snoc _ hs ih => exact ih.step hs

/-- The handler of the next event. -/
theorem MeasureInv.selected_eq (h : MeasureInv tr d) (hact : d.adc.driver.state = .ACTIVE) :
    (Since AcceptsMeasure EndsMeasure tr → d.adc.mOperation = some .adcReadHandlerMeasure) ∧
      (¬ Since AcceptsMeasure EndsMeasure tr → d.adc.mOperation = some .adcReadHandler) := by
  refine ⟨h.pending.mpr, fun hno => ?_⟩
  obtain ⟨o, ho⟩ := h.selected hact
  cases o with
  | adcReadHandler => exact ho
  | adcReadHandlerMeasure => exact absurd (h.pending.mp ho) hno

theorem MeasureInv.takes {capture : Storage} {o : Operation} (h : MeasureInv tr d)
    (hs : MeasureStep d (.adc capture) d') (hop : d.adc.mOperation = some o) :
    Takes o d.adc.nextFull d d' := by
  cases measureEffect h.reset h.agree h.selected hs with
  | event o' _ hop' htakes _ =>
    obtain rfl := Option.some.inj (hop.symm.trans hop')
    exact htakes
  | keeps _ _ _ _ hends => exact absurd (.inl rfl) hends
  | start ha => exact absurd ha (not_accepted_of_event rfl)
  | stop ha => exact absurd ha (not_accepted_of_event rfl)
  | measure ha => exact absurd ha (not_accepted_of_event rfl)

theorem MeasureInv.stop (h : MeasureInv tr d) (hs : MeasureStep d .comm d')
    (ha : AcceptsHalt (d, .comm)) : d'.adc.mOperation = none := by
  cases measureEffect h.reset h.agree h.selected hs with
  | stop _ hop => exact hop
  | keeps _ _ _ _ hends => exact absurd (.inr ha) hends
  | start ha' => exact absurd (ha.command_eq ha') (by decide)
  | measure ha' => exact absurd (ha.command_eq ha') (by decide)
  | event _ ha' => cases ha'

/-- The handler is selected exactly while the ADC runs. An event takes the measuring one if
an 'M' has been accepted since the last event and the last stop, and else the normal one;
so no more measurements are requested than were accepted, and none is after a stop. An 'M'
at any other time is an error and nothing else. -/
theorem measurement_one_shot (h : MeasureRun b tr d) :
    (d.adc.mOperation = none ↔ d.adc.driver.state = .READY) ∧
    (∀ capture d', MeasureStep d (.adc capture) d' →
      (Since AcceptsMeasure EndsMeasure tr → Takes .adcReadHandlerMeasure d.adc.nextFull d d') ∧
      (¬ Since AcceptsMeasure EndsMeasure tr → Takes .adcReadHandler d.adc.nextFull d d')) ∧
    measuredRequests d.conv ≤ tr.countP (AcceptsMeasure ·) ∧
    (∀ d', MeasureStep d .comm d' → AcceptsHalt (d, .comm) → d'.adc.mOperation = none) ∧
    (∀ l p l', tr = l ++ p :: l' → AcceptsHalt p → (∀ q ∈ l', ¬ AcceptsMeasure q) →
      d.adc.mOperation ≠ some .adcReadHandlerMeasure) ∧
    (∀ rest, d.input = 'M'.toUInt8 :: rest → d.runStatus ≠ .Running →
      CommunicationManager.threadComm.run d =
        .ok () { received d 'M'.toUInt8 rest with em := d.em.add .NotRunning }) := by
  have hinv := measureInv_run h
  refine ⟨hinv.ready_iff, fun capture d' hs => ?_, le_of_add_le_left hinv.count,
    fun d' hs ha => hinv.stop hs ha, ?_, ?_⟩
  · obtain ⟨hmeasure, hnormal⟩ := hinv.selected_eq hs.1
    exact ⟨fun hsince => hinv.takes hs (hmeasure hsince), fun hno => hinv.takes hs (hnormal hno)⟩
  · rintro l p l' rfl ha hno hop
    obtain ⟨q, hq, hm⟩ := (hinv.pending.mp hop).exists_after l' (.inr ha)
      fun hm => absurd (hm.command_eq ha) (by decide)
    exact hno q hq hm
  · intro rest hin hrun
    rw [threadComm_run, hin]
    exact measureConversion_rejected (d := received d 'M'.toUInt8 rest) hrun

end Runs

/-- An 'M' right after the start of a conversion. -/
theorem measurement_one_shot_first_half :
    ∃ tr d d', MeasureRun default tr d ∧
      tr.map Prod.snd = [.host ['R'.toUInt8, 'M'.toUInt8], .comm, .comm] ∧
      MeasureStep d (.adc fun _ => 7) d' ∧ Takes .adcReadHandlerMeasure false d d' := by
  obtain ⟨tr, d, hr, hacts, hact, hfirst, hsince⟩ : ∃ tr d, MeasureRun default tr d ∧
      tr.map Prod.snd = [.host ['R'.toUInt8, 'M'.toUInt8], .comm, .comm] ∧
      d.adc.driver.state = .ACTIVE ∧ d.adc.nextFull = false ∧
      Since AcceptsMeasure EndsMeasure tr := by
    have hhost := Run.nil.snoc (measureStep_host (powerUp default) ['R'.toUInt8, 'M'.toUInt8])
    have hstart := hhost.snoc (measureStep_pass rfl)
    exact ⟨_, _, hstart.snoc (measureStep_pass rfl), rfl, rfl, rfl, since_last ⟨rfl, rfl, rfl⟩⟩
  have hs := measureStep_adc (fun _ => 7) hact
  have htakes := ((measurement_one_shot hr).2.1 _ _ hs).1 hsince
  rw [hfirst] at htakes
  exact ⟨tr, d, _, hr, hacts, hs, htakes⟩

/-! ### The whole system -/

section System

variable {k : Layout} {s s' : Sys} {a : SysAct}

theorem adc_runnerMove {x : RunnerAct} (h : RunnerMove k s x s') : s'.dev.adc = s.dev.adc := by
  cases h with
  | svcReturn _ _ _ _ _ _ d _ hd =>
    obtain ⟨last, rfl⟩ := port_syscall_effect hd
    rfl
  | store =>
    unfold Sys.beginStore
    dsimp only
    split <;> rfl
  | _ => rfl

theorem adc_of_sysStep (h : sysStep k s a = some s') (hcomm : a ≠ .comm)
    (hadc : ∀ capture, a ≠ .adc capture) : s'.dev.adc = s.dev.adc := by
  replace h := sysStep_act h
  cases a with
  | host bytes =>
    cases h
    rfl
  | comm => exact absurd rfl hcomm
  | monitor =>
    obtain ⟨mb, monitor, rfl⟩ := monitorStep_cases h
    rfl
  | runner x => exact adc_runnerMove (runnerStep_moves h)
  | adc capture => exact absurd rfl (hadc capture)
  | dac full =>
    obtain ⟨-, rfl⟩ := act_dac h
    rfl
  | memFault lr =>
    obtain ⟨mem, hd⟩ := faultStep_dev h
    rw [hd]
    rfl
  | hardFault lr =>
    cases h
    obtain ⟨mem, aborts, -, em, entry, he⟩ := hardFault_dev k lr (s.runner.context k) s.dev
    rw [he]

theorem SysEffect.noPosts (h : SysEffect s s' a) (hcomm : a ≠ .comm)
    (hadc : ∀ capture, a ≠ .adc capture) :
    ∃ new, s'.dev.conv = s.dev.conv ++ new ∧ ∀ msg status, ConvEvent.post msg status ∉ new := by
  cases h with
  | comm => exact absurd rfl hcomm
  | adc capture => exact absurd rfl (hadc capture)
  | fetch msg _ _ _ _ _ hconv => exact ⟨[], by simpa using hconv, by simp⟩
  | receive msg _ _ _ _ hmail => exact ⟨[.received msg], congrArg MailView.conv hmail, by simp⟩
  | work _ aborts haborts hmail =>
    refine ⟨aborts, congrArg MailView.conv hmail, fun msg status hmem => ?_⟩
    cases haborts _ hmem

/-- Seen from a run with measurements. -/
theorem measureStep_of_sysStep (hreset : s.dev.mMailbox.reset = false)
    (h : sysStep k s a = some s') (hcomm : a ≠ .comm) :
    (∃ capture, a = .adc capture ∧ MeasureStep s.dev (.adc capture) s'.dev) ∨
      (∃ bytes, MeasureStep s.dev (.host bytes) s'.dev) ∨ MeasureStep s.dev .env s'.dev := by
  by_cases hadc : ∃ capture, a = .adc capture
  · obtain ⟨capture, rfl⟩ := hadc
    exact .inl ⟨capture, rfl, (adcStep_cases (sysStep_act h)).1, adcStep_dev (sysStep_act h)⟩
  obtain ⟨heffect, hc | ⟨bytes, -, rfl⟩ | hframe⟩ := sysStep_effect hreset h
  · exact absurd hc hcomm
  · exact .inr (.inl ⟨bytes, rfl⟩)
  · exact .inr (.inr { hframe.rely with
      adc := adc_of_sysStep h hcomm (not_exists.mp hadc)
      reset := hframe.reset
      conv := heffect.noPosts hcomm (not_exists.mp hadc) })

end System

end Stmdsp
