import Stmdsp.Proofs.HandlerSteps

/-! The length of a conversion's buffers is kept in five places, which different commands
write. Under any interference that leaves all of them alone, the handlers make them agree
when they end, and at every interruption point agree on what an ADC event compares. -/

namespace Stmdsp

open Proc

/-- The places the length is kept in, and what decides who may change it. -/
structure Shape where
  runStatus : RunStatus
  adc : Driver
  mCurrentBuffer : Option ℕ
  mCurrentBufferSize : ℕ
  dac : Fin 2 → Driver
  inSize : ℕ
  outSize : ℕ
  generatorSize : ℕ

def Device.shape (d : Device) : Shape :=
  ⟨d.runStatus, d.adc.driver, d.adc.mCurrentBuffer, d.adc.mCurrentBufferSize, d.dac, d.In.mSize,
    d.Out.mSize, d.Generator.mSize⟩

namespace Shape

/-- What an ADC event needs, and what the guards on the run status rest on. -/
structure Steady (v : Shape) : Prop where
  active : v.adc.state = .ACTIVE → v.mCurrentBuffer = some 0 ∧ v.mCurrentBufferSize = v.inSize ∧
    v.adc.depth = v.inSize ∧ v.inSize % 2 = 0 ∧ 0 < v.inSize
  idle : v.runStatus = .Idle → v.adc.state ≠ .ACTIVE

/-- The sizes that commands set. -/
structure Sized (v : Shape) : Prop where
  same : v.outSize = v.inSize
  even : v.inSize % 2 = 0
  generator : (v.dac 1).state = .ACTIVE → (v.dac 1).depth = v.generatorSize

/-- All five places agree, and the generator's two. -/
structure Agree (v : Shape) : Prop extends Steady v, Sized v where
  dac0 : v.adc.state = .ACTIVE → (v.dac 0).depth = v.inSize

/-- No conversion runs. -/
structure Paused (v : Shape) : Prop extends Sized v where
  stopped : v.adc.state ≠ .ACTIVE

/-- Running, with the ADC to be started for `count` samples. -/
structure Starting (count : ℕ) (v : Shape) : Prop extends Paused v where
  running : v.runStatus = .Running
  inSize : v.inSize = count

/-- And with the ADC set up for them. -/
structure Armed (count : ℕ) (v : Shape) : Prop extends Starting count v where
  buffer : v.mCurrentBuffer = some 0
  size : v.mCurrentBufferSize = count

/-- All places agree but the DAC's, which is started last. -/
structure Streaming (v : Shape) : Prop extends Steady v, Sized v

theorem steady_of_stopped {v : Shape} (h : v.adc.state ≠ .ACTIVE) : Steady v :=
  ⟨fun ha => absurd ha h, fun _ => h⟩

theorem Paused.agree {v : Shape} (h : Paused v) : Agree v :=
  { steady_of_stopped h.stopped, h.toSized with dac0 := fun ha => absurd ha h.stopped }

end Shape

structure SameShape (d d' : Device) : Prop where
  shape : d'.shape = d.shape

/-! ### Steps that leave the shape alone -/

def shapeCommands : List UInt8 :=
  ['B'.toUInt8, 'D'.toUInt8, 'R'.toUInt8, 'S'.toUInt8, 'W'.toUInt8, 'w'.toUInt8]

theorem shape_step {c : UInt8} (hc : c ∉ shapeCommands) (d d' : Device) (h : HandlerStep c d d') :
    SameShape d d' := by
  have hne : ∀ x ∈ shapeCommands, c ≠ x := fun x hx hcx => hc (hcx ▸ hx)
  have hconv : ¬ convertsWith c := fun h => hc (by
    simp only [convertsWith, converterCommands, shapeCommands, List.mem_cons] at *
    tauto)
  have hRS : ¬ (c = 'R'.toUInt8 ∨ c = 'S'.toUInt8) := fun h =>
    h.elim (hne _ (by decide)) (hne _ (by decide))
  cases h with
  | inSize h => exact absurd h (hne _ (by decide))
  | outSize h => exact absurd h (hne _ (by decide))
  | generatorSize h => exact absurd h (hne _ (by decide))
  | status h => exact absurd h hRS
  | conversion h => exact absurd h hRS
  | dac h => exact absurd h hconv
  | _ => exact ⟨rfl⟩

theorem SameShape.of_quiet {d d' : Device} (h : Leaves Device.quiet d d') : SameShape d d' :=
  ⟨congrArg (fun q : QuietView => Shape.mk q.core.converters.runStatus q.core.converters.adcDriver
    q.core.pipe.mCurrentBuffer q.core.pipe.mCurrentBufferSize q.core.converters.dac q.inSize
    q.outSize q.generatorSize) h.1⟩

theorem shape_of_quiet {α : Type} {p : Fw α} (h : Keeps (Leaves Device.quiet) p) :
    Keeps SameShape p :=
  h.mono fun _ _ => .of_quiet

theorem shape_sclock_start : Keeps SameShape SClock.start := by
  refine (keeps_act fun _ => ⟨rfl⟩).bind fun before => ?_
  split
  · exact (keeps_gets fun _ => ⟨rfl⟩).bind fun _ => keeps_guarded (fun _ => ⟨rfl⟩) fun _ _ => ⟨rfl⟩
  · trivial

theorem shape_sclock_stop : Keeps SameShape SClock.stop := by
  refine (keeps_act fun _ => ⟨rfl⟩).bind fun after => ?_
  split
  · exact keeps_modify fun _ => ⟨rfl⟩
  · trivial

theorem shape_sigGenWantsMore : Keeps SameShape DAC.sigGenWantsMore := by
  refine (keeps_gets fun _ => ⟨rfl⟩).bind fun isDone => ?_
  split
  · exact (keeps_gets fun _ => ⟨rfl⟩).bind fun _ => (keeps_modify fun _ => ⟨rfl⟩).bind fun _ => trivial
  · trivial

/-! ### Handlers under interference -/

/-- At every interruption point of `p` the shape is steady; when it ends, `P` holds of it. -/
abbrev Shapes {α : Type} (p : Fw α) (P : α → Shape → Prop) (d : Device) : Prop :=
  Holds SameShape (fun d => d.shape.Steady) (fun a t => P a t.shape) p d

section Rules

variable {α : Type} {p : Fw α} {P R : Shape → Prop} {d : Device}

theorem shapes_keep (hp : Keeps SameShape p) (hP : ∀ v, P v → v.Steady) (h : P d.shape) :
    Shapes p (fun _ => P) d :=
  (hp.mono fun _ _ hab (h : P _) => hab.shape.symm ▸ h).holds
    (fun _ _ hab h => hab.shape.symm ▸ h) (fun _ => hP _) h

theorem shapes_modify {u : Device → Device} (f : Shape → Shape) (hu : ∀ t, (u t).shape = f t.shape)
    (hP : ∀ v, P v → v.Steady) (hR : ∀ v, R v → v.Steady) (hf : ∀ v, P v → R (f v))
    (h : P d.shape) : Shapes (Proc.modify u) (fun _ => R) d :=
  holds_modify (hP _ h) fun t ht => by
    have hf' : R (u t).shape := hu t ▸ hf _ (ht.shape.symm ▸ h)
    exact ⟨hR _ hf', hf'⟩

theorem shapes_gets {f : Device → α} (g : Shape → α) (hf : ∀ t, f t = g t.shape)
    (hP : ∀ v, P v → v.Steady) (h : P d.shape) :
    Shapes (Proc.gets f) (fun a v => P v ∧ a = g v) d :=
  holds_act (hP _ h) fun t ht => by
    have hR : P t.shape := ht.shape.symm ▸ h
    exact ⟨hP _ hR, hR, hf t⟩

theorem shapes_assert {c : Device → Bool} {e : Error} (g : Shape → Bool)
    (hc : ∀ t, c t = g t.shape) (hP : ∀ v, P v → v.Steady) (h : P d.shape) :
    Shapes (EM.assert c e) (fun ok v => P v ∧ ok = g v) d :=
  holds_act (hP _ h) fun t ht => by
    have hR : P t.shape := ht.shape.symm ▸ h
    cases hct : c t with
    | true => exact ⟨hP _ hR, hR, (hc t ▸ hct).symm⟩
    | false => exact ⟨hP _ hR, hR, (hc t ▸ hct).symm⟩

theorem shapes_guarded {log : Device → Device} {c : Device → Bool} {f : Device → α × Device}
    (hlog : ∀ t, (log t).shape = t.shape) (hP : ∀ v, P v → v.Steady) (hR : ∀ v, R v → v.Steady)
    (hf : ∀ t, c t = true → P t.shape → R (f (log t)).2.shape) (h : P d.shape) :
    Shapes (Proc.guarded log c f) (fun _ => R) d := by
  refine holds_guarded (hP _ h) (fun t ht => ?_) fun t ht hc => ?_
  · have hsteady : t.shape.Steady := hP _ (ht.shape.symm ▸ h)
    exact hlog t ▸ hsteady
  · have hf' := hf t hc (ht.shape.symm ▸ h)
    exact ⟨hR _ hf', hf'⟩

end Rules

section Handlers

variable {d : Device}

theorem Shape.Agree.steady (v : Shape) (h : v.Agree) : v.Steady := h.toSteady

theorem Shape.Paused.steady (v : Shape) (h : v.Paused) : v.Steady := h.agree.toSteady

theorem Shape.Agree.paused {v : Shape} (h : v.Agree) (hidle : v.runStatus = .Idle) : v.Paused :=
  { h.toSized with stopped := h.idle hidle }

theorem shapes_setBufferSize (h : d.shape.Agree) :
    Shapes setBufferSize (fun _ => Shape.Agree) d := by
  refine (shapes_assert (·.runStatus == .Idle) (fun _ => rfl) Shape.Agree.steady h).bind
    fun idle t _ ⟨ht, hidle⟩ => ?_
  split
  · rename_i htrue
    have hpaused : t.shape.Paused := ht.paused (by simpa [hidle] using htrue)
    refine (shapes_keep (shape_of_quiet (quiet_read 2)) Shape.Paused.steady hpaused).bind
      fun bytes t _ ht => ?_
    refine (shapes_keep (shape_of_quiet (quiet_assert _ _)) Shape.Paused.steady ht).bind
      fun ok t _ ht => ?_
    split
    · refine (shapes_assert (fun _ => _) (fun _ => rfl) Shape.Paused.steady ht).bind
        fun fits t _ ⟨ht, hfits⟩ => ?_
      split
      · rename_i hok
        have hcount : (if param16 bytes * 2 < MAX_SAMPLE_BUFFER_SIZE then param16 bytes * 2
            else MAX_SAMPLE_BUFFER_SIZE) = param16 bytes * 2 := by
          rw [hok, eq_comm, decide_eq_true_eq] at hfits
          split <;> omega
        -- Between the two writes the sizes differ, with no conversion to notice.
        refine Holds.bind (shapes_modify (R := fun v =>
          (Shape.Paused { v with outSize := param16 bytes * 2 }))
          (fun v => { v with inSize := param16 bytes * 2 }) (fun t => ?_) Shape.Paused.steady
          (fun v hv => Shape.steady_of_stopped hv.stopped) (fun v hv => ?_) ht) fun _ t _ ht => ?_
        · simp only [Device.shape, SampleBuffer.setSize, hcount]
        · exact ⟨⟨rfl, Nat.mul_mod_left _ 2, hv.generator⟩, hv.stopped⟩
        · refine shapes_modify
            (P := fun v => Shape.Paused { v with outSize := param16 bytes * 2 })
            (fun v => { v with outSize := param16 bytes * 2 }) (fun t => ?_)
            (fun v hv => Shape.steady_of_stopped hv.stopped) Shape.Agree.steady
            (fun v hv => hv.agree) ht
          simp only [Device.shape, SampleBuffer.setSize, hcount]
      · exact ⟨ht.steady, ht.agree⟩
    · exact ⟨ht.steady, ht.agree⟩
  · exact ⟨ht.toSteady, ht⟩

theorem shapes_updateGenerator (h : d.shape.Agree) :
    Shapes updateGenerator (fun _ => Shape.Agree) d := by
  have hkeep : ∀ {α : Type} {p : Fw α} {t : Device}, Keeps (Leaves Device.quiet) p →
      t.shape.Agree → Shapes p (fun _ => Shape.Agree) t :=
    fun hp ht => shapes_keep (shape_of_quiet hp) Shape.Agree.steady ht
  refine (hkeep (quiet_read 2) h).bind fun bytes t _ ht => ?_
  refine (hkeep (quiet_assert _ _) ht).bind fun ok t _ ht => ?_
  split
  swap
  · exact ⟨ht.toSteady, ht⟩
  refine (hkeep (quiet_assert _ _) ht).bind fun fits t _ ht => ?_
  split
  swap
  · exact ⟨ht.toSteady, ht⟩
  refine (shapes_gets (fun v => (v.dac 1).state == .ACTIVE) (fun _ => rfl) Shape.Agree.steady
    ht).bind fun running t _ ⟨ht, hrun⟩ => ?_
  split
  · -- A stopped generator has no depth to agree with.
    rename_i hstopped
    have hgen : (t.shape.dac 1).state ≠ .ACTIVE := by
      rw [hrun] at hstopped
      simpa using hstopped
    refine Holds.bind (shapes_modify (P := fun v => v.Agree ∧ (v.dac 1).state ≠ .ACTIVE)
      (R := Shape.Agree) (fun v => { v with
        generatorSize := if param16 bytes < MAX_SAMPLE_BUFFER_SIZE then param16 bytes
          else MAX_SAMPLE_BUFFER_SIZE })
      (fun _ => rfl) (fun v hv => hv.1.toSteady) Shape.Agree.steady (fun v hv => ?_) ⟨ht, hgen⟩)
      fun _ t _ ht => ?_
    · exact { hv.1 with generator := fun hact => absurd hact hv.2 }
    · refine (hkeep (quiet_gets _) ht).bind fun size t _ ht => ?_
      refine (hkeep (quiet_read _) ht).bind fun samples t _ ht => ?_
      exact hkeep (keeps_modify fun _ => .of_trace_eq rfl rfl) ht
  · refine (shapes_keep shape_sigGenWantsMore Shape.Agree.steady ht).bind fun more t _ ht => ?_
    split
    · exact hkeep (quiet_write _) ht
    · refine (hkeep (quiet_write _) ht).bind fun _ t _ ht => ?_
      refine (hkeep (quiet_gets _) ht).bind fun half t _ ht => ?_
      refine (hkeep (quiet_gets _) ht).bind fun size t _ ht => ?_
      refine (hkeep (quiet_read _) ht).bind fun samples t _ ht => ?_
      exact hkeep (keeps_modify fun _ => .of_trace_eq rfl rfl) ht

/-- A stop of a DAC channel changes no length. -/
theorem Shape.Agree.stopDac {v : Shape} (h : v.Agree) (channel : Fin 2) :
    Shape.Agree { v with
      dac := Function.update v.dac channel { v.dac channel with state := .READY } } := by
  have hdepth : ∀ i, (Function.update v.dac channel { v.dac channel with state := .READY } i).depth =
      (v.dac i).depth := fun i => by
    by_cases hi : i = channel
    · subst hi
      simp
    · simp [hi]
  refine ⟨⟨h.active, h.idle⟩, ⟨h.same, h.even, fun hact => ?_⟩, fun hact => ?_⟩
  · refine (hdepth 1).trans (h.generator ?_)
    by_cases hi : 1 = channel
    · subst hi
      simp at hact
    · simpa [hi] using hact
  · exact (hdepth 0).trans (h.dac0 hact)

theorem shapes_dac_stop (channel : Fin 2) (h : d.shape.Agree) :
    Shapes (DAC.stop channel) (fun _ => Shape.Agree) d := by
  refine Holds.bind (shapes_guarded (fun _ => rfl) Shape.Agree.steady Shape.Agree.steady
    (fun t _ ht => ?_) h) fun _ t _ ht => shapes_keep shape_sclock_stop Shape.Agree.steady ht
  exact ht.stopDac channel

theorem shapes_stopConversion (h : d.shape.Agree) :
    Shapes stopConversion (fun _ => Shape.Agree) d := by
  refine (shapes_assert (·.runStatus == .Running) (fun _ => rfl) Shape.Agree.steady h).bind
    fun running t _ ⟨ht, _⟩ => ?_
  split
  swap
  · exact ⟨ht.toSteady, ht⟩
  have hpaused : ∀ (f : Shape → Shape) (u : Device → Device) {t : Device},
      (∀ t, (u t).shape = f t.shape) → (∀ v, v.Paused → (f v).Paused) → t.shape.Paused →
      Shapes (Proc.modify u) (fun _ => Shape.Paused) t :=
    fun f u _ hu hf ht => shapes_modify f hu Shape.Paused.steady Shape.Paused.steady hf ht
  refine Holds.bind ((shapes_dac_stop 0 ht).bind fun _ t _ ht => ?_) fun _ t _ ht =>
    shapes_modify (P := Shape.Paused) (fun v => { v with runStatus := .Idle }) (fun _ => rfl)
      Shape.Paused.steady Shape.Agree.steady
      (fun v hv => Shape.Paused.agree { hv with }) ht
  refine (shapes_keep shape_sclock_stop Shape.Agree.steady ht).bind fun _ t _ ht => ?_
  refine Holds.bind (shapes_guarded (R := Shape.Paused) (fun _ => rfl) Shape.Agree.steady
    Shape.Paused.steady (fun t _ ht => ?_) ht) fun _ t _ ht => ?_
  · exact { ht.toSized with stopped := by simp [Device.shape] }
  refine (hpaused (fun v => { v with mCurrentBuffer := none }) _ (fun _ => rfl)
    (fun v hv => { hv with }) ht).bind fun _ t _ ht => ?_
  refine (hpaused (fun v => { v with mCurrentBufferSize := 0 }) _ (fun _ => rfl)
    (fun v hv => { hv with }) ht).bind fun _ t _ ht => ?_
  exact hpaused id _ (fun _ => rfl) (fun v hv => hv) ht

theorem shapes_dac_start {P R : Shape → Prop} (channel : Fin 2) (count : ℕ)
    (hP : ∀ v, P v → v.Steady) (hR : ∀ v, R v → v.Steady)
    (hf : ∀ v, P v → R { v with dac := Function.update v.dac channel ⟨.ACTIVE, count⟩ })
    (h : P d.shape) : Shapes (DAC.start channel count) (fun _ => R) d := by
  have hstart : ∀ {t : Device}, P t.shape →
      Shapes ((dacStartConversion channel count).bind fun _ => SClock.start) (fun _ => R) t :=
    fun ht => Holds.bind (shapes_guarded (fun _ => rfl) hP hR (fun t _ ht => hf _ ht) ht)
      fun _ _ _ ht => shapes_keep shape_sclock_start hR ht
  have hmark : Keeps SameShape (Proc.modify fun d : Device => { d with dacIsDone := -1 }) :=
    keeps_modify fun _ => ⟨rfl⟩
  unfold DAC.start
  split
  · exact (shapes_keep hmark hP h).bind fun _ _ _ ht => hstart ht
  · exact hstart h

theorem shapes_startGenerator (h : d.shape.Agree) :
    Shapes startGenerator (fun _ => Shape.Agree) d := by
  refine (shapes_gets (fun v => v.generatorSize) (fun _ => rfl) Shape.Agree.steady h).bind
    fun count t _ ht => ?_
  refine shapes_dac_start (P := fun v => v.Agree ∧ count = v.generatorSize) 1 count
    (fun v hv => hv.1.toSteady) Shape.Agree.steady (fun v hv => ?_) ht
  exact { hv.1 with
    generator := fun _ => by simpa using hv.2
    dac0 := fun hact => by simpa using hv.1.dac0 hact }

theorem Shape.Armed.steady {count : ℕ} (v : Shape) (h : v.Armed count) : v.Steady :=
  h.toPaused.steady

theorem Shape.Streaming.steady (v : Shape) (h : v.Streaming) : v.Steady := h.toSteady

theorem Shape.Armed.streaming {count : ℕ} {v : Shape} (h : v.Armed count) (hpos : 0 < count) :
    Shape.Streaming { v with adc := ⟨.ACTIVE, count⟩ } := by
  refine ⟨⟨fun _ => ⟨h.buffer, h.size.trans h.inSize.symm, h.inSize.symm, h.even, ?_⟩, fun hidle => ?_⟩,
    ⟨h.same, h.even, h.generator⟩⟩
  · rw [h.inSize]
    exact hpos
  · rw [h.running] at hidle
    simp at hidle

theorem Shape.Starting.steady {count : ℕ} (v : Shape) (h : v.Starting count) : v.Steady :=
  h.toPaused.steady

theorem shapes_adc_start {count : ℕ} (h : d.shape.Starting count) :
    Shapes (ADC.start 0 count .adcReadHandler) (fun _ => Shape.Streaming) d := by
  refine Holds.bind (shapes_modify
    (R := fun v => v.Starting count ∧ v.mCurrentBuffer = some 0)
    (fun v => { v with mCurrentBuffer := some 0 }) (fun _ => rfl) Shape.Starting.steady
    (fun v hv => hv.1.steady) (fun v hv => ⟨{ hv with }, rfl⟩) h) fun _ t _ ht => ?_
  refine Holds.bind (shapes_modify (P := fun v => v.Starting count ∧ v.mCurrentBuffer = some 0)
    (R := Shape.Armed count) (fun v => { v with mCurrentBufferSize := count }) (fun _ => rfl)
    (fun v hv => hv.1.steady) Shape.Armed.steady
    (fun v hv => { hv.1 with buffer := hv.2, size := rfl }) ht) fun _ t _ ht => ?_
  refine Holds.bind (shapes_modify (P := Shape.Armed count) (R := Shape.Armed count) id
    (fun _ => rfl) Shape.Armed.steady Shape.Armed.steady (fun _ hv => hv) ht) fun _ t _ ht => ?_
  refine Holds.bind (shapes_guarded (R := Shape.Streaming) (fun _ => rfl) Shape.Armed.steady
    Shape.Streaming.steady (fun t hc ht => ?_) ht) fun _ t _ ht =>
      shapes_keep shape_sclock_start Shape.Streaming.steady ht
  simp only [Bool.and_eq_true, decide_eq_true_eq] at hc
  exact ht.streaming hc.1.1

theorem shapes_startConversion (h : d.shape.Agree) :
    Shapes startConversion (fun _ => Shape.Agree) d := by
  refine (shapes_assert (·.runStatus == .Idle) (fun _ => rfl) Shape.Agree.steady h).bind
    fun idle t _ ⟨ht, hidle⟩ => ?_
  split
  swap
  · exact ⟨ht.toSteady, ht⟩
  rename_i htrue
  have hpaused : t.shape.Paused := ht.paused (by simpa [hidle] using htrue)
  refine Holds.bind (shapes_modify (P := Shape.Paused)
    (R := fun v => v.Paused ∧ v.runStatus = .Running) (fun v => { v with runStatus := .Running })
    (fun _ => rfl) Shape.Paused.steady (fun v hv => hv.1.steady)
    (fun v hv => ⟨{ hv with }, rfl⟩) hpaused) fun _ t _ ht => ?_
  refine Holds.bind (shapes_modify (P := fun v => v.Paused ∧ v.runStatus = .Running)
    (R := fun v => v.Paused ∧ v.runStatus = .Running) id (fun _ => rfl)
    (fun v hv => hv.1.steady) (fun v hv => hv.1.steady) (fun _ hv => hv) ht) fun _ t _ ht => ?_
  refine (shapes_gets (P := fun v => v.Paused ∧ v.runStatus = .Running) (fun v => v.inSize)
    (fun _ => rfl) (fun v hv => hv.1.steady) ht).bind fun count t _ ⟨ht, hcount⟩ => ?_
  refine (shapes_adc_start { ht.1 with running := ht.2, inSize := hcount.symm }).bind
    fun _ t _ ht => ?_
  refine (shapes_gets (fun v => v.outSize) (fun _ => rfl) Shape.Streaming.steady ht).bind
    fun size t _ ht => ?_
  refine shapes_dac_start (P := fun v => v.Streaming ∧ size = v.outSize) 0 size
    (fun v hv => hv.1.toSteady) Shape.Agree.steady (fun v hv => ?_) ht
  refine ⟨⟨hv.1.active, hv.1.idle⟩, ⟨hv.1.same, hv.1.even, fun hact => ?_⟩, fun _ => ?_⟩
  · exact hv.1.generator (by simpa using hact)
  · simpa using hv.2.trans hv.1.same

theorem shapes_dispatch (c : UInt8) (h : d.shape.Agree) :
    Shapes (dispatch c) (fun _ => Shape.Agree) d := by
  by_cases hc : c ∈ shapeCommands
  · simp only [shapeCommands, List.mem_cons, List.not_mem_nil, or_false] at hc
    rcases hc with rfl | rfl | rfl | rfl | rfl | rfl
    · exact shapes_setBufferSize h
    · exact shapes_updateGenerator h
    · exact shapes_startConversion h
    · exact shapes_stopConversion h
    · exact shapes_startGenerator h
    · exact shapes_dac_stop 1 h
  · exact shapes_keep ((steps_dispatch c).mono (shape_step hc)) Shape.Agree.steady h

end Handlers

end Stmdsp
