import Stmdsp.Proofs.Environment
import Stmdsp.Proofs.Quiescence
import Stmdsp.Proofs.Shape

/-! The lengths over runs of the whole system, and what they make of an ADC event: it is
taken for the half that the DMA has filled. -/

namespace Stmdsp

open Proc

/-! ### The whole system -/

theorem SameShape.of_rely {d d' : Device} (h : Rely d d') : SameShape d d' := by
  constructor
  rw [Device.shape, h.runStatus, h.adcDriver, h.currentBuffer, h.currentBufferSize, h.dac, h.inSize,
    h.outSize, h.generatorSize]
  rfl

theorem stable_shape :
    Stable SameShape (fun d => d.shape.Steady) (fun d => d.shape.Agree) where
  env := fun _ _ h => .of_rely h.toRely
  stream := fun _ _ _ => ⟨rfl⟩
  trans := fun _ _ _ h k => ⟨k.shape.trans h.shape⟩
  inv := fun _ _ h => h.shape.symm ▸ id
  post := fun _ _ h => h.shape.symm ▸ id

theorem agree_powerUp (b : Board) : (powerUp b).shape.Agree :=
  Shape.Paused.agree ⟨⟨rfl, by simp [powerUp, Device.shape, SampleBuffer.init, MAX_SAMPLE_BUFFER_SIZE],
    fun h => by simp [powerUp, Device.shape] at h⟩, by simp [powerUp, Device.shape]⟩

theorem guarantees_run {k : Layout} {b : Board} {tr : List (Sys × SysAct)} {s : Sys}
    (h : SysRun k b tr s) :
    Guarantees SameShape (fun d => d.shape.Steady) (fun d => d.shape.Agree) s := by
  refine (h.invariant (I := fun s => SysInv s ∧
    Guarantees SameShape (fun d => d.shape.Steady) (fun d => d.shape.Agree) s)
    ⟨sysInv_boot b, (agree_powerUp b).toSteady, agree_powerUp b⟩ fun s a s' hi hs => ?_).2
  exact ⟨hi.1.step hs, hi.2.step stable_shape (fun c _ _ h => shapes_dispatch c h) hi.1.reset hs.2⟩

/-- The halves of a running conversion's buffer start apart. -/
theorem Shape.Steady.middata_ne {d : Device} (h : d.shape.Steady)
    (hact : d.adc.driver.state = .ACTIVE) : d.In.middata ≠ d.In.data := by
  obtain ⟨-, -, -, heven, hpos⟩ := h.active hact
  change 0 + d.In.mSize / 2 ≠ 0
  change d.In.mSize % 2 = 0 at heven
  change 0 < d.In.mSize at hpos
  omega

/-! ### The classification of an ADC event -/

/-- An event of the second half, if `full`, and else of the first has been handled: the
message and the mark are those of this half. -/
structure Classified (full : Bool) (d d' : Device) : Prop where
  posts : ∃ new, d'.conv = d.conv ++ new ∧
    ∀ msg status, ConvEvent.post msg status ∈ new → MSG_FOR_FIRST msg.code = !full
  mark : d'.In.mModified = d.In.mModified ∨
    d'.In.mModified = some (if full then d.In.middata else d.In.data)
  samples : d'.In.mBuffer = d.In.mBuffer

section Event

variable {d : Device} {full : Bool}

theorem classified_postHalf {first second : ℕ} (hfirst : MSG_FOR_FIRST first = true)
    (hsecond : MSG_FOR_FIRST second = false) (hne : d.In.middata ≠ d.In.data) :
    Classified full d
      (ConversionManager.postHalf first second
        (some (if full then d.In.middata else d.In.data)) d) := by
  unfold ConversionManager.postHalf
  cases full with
  | false =>
    simp only [Bool.false_eq_true, if_false, if_true]
    exact ⟨⟨_, rfl, by simpa using hfirst⟩, .inr rfl, rfl⟩
  | true =>
    simp only [if_true, Option.some.injEq, hne, if_false]
    exact ⟨⟨_, rfl, by simpa using hsecond⟩, .inr rfl, rfl⟩

theorem classified_call (full : Bool) (o : Operation) (hne : d.In.middata ≠ d.In.data) :
    Classified full d (o.call (some (if full then d.In.middata else d.In.data)) d).1 := by
  cases o with
  | adcReadHandler =>
    simp only [Operation.call, ConversionManager.adcReadHandler]
    split
    · exact ⟨⟨[.reset d.adc.events d.mMailbox.queue, .abort],
        by simp [ConversionManager.abort, ELFManager.unload, Device.logConv], by simp⟩, .inl rfl, rfl⟩
    · exact classified_postHalf rfl rfl hne
  | adcReadHandlerMeasure =>
    have h : Classified full d (ConversionManager.postHalf MSG_CONVFIRST_MEASURE
        MSG_CONVSECOND_MEASURE (some (if full then d.In.middata else d.In.data)) d) :=
      classified_postHalf rfl rfl hne
    exact ⟨h.posts, h.mark, h.samples⟩

/-- The pointer the callback hands on, in a conversion of all of `In`. -/
theorem classified_callback (full : Bool) (hbuf : d.adc.mCurrentBuffer = some d.In.data)
    (hsize : d.adc.mCurrentBufferSize = d.In.mSize) (hne : d.In.middata ≠ d.In.data)
    (hfull : d.adc.driver.state = .COMPLETE ↔ full = true) :
    Classified full d (ADC.conversionCallback d).1 := by
  unfold ADC.conversionCallback
  cases d.adc.mOperation with
  | none => exact ⟨⟨[], by simp, by simp⟩, .inl rfl, rfl⟩
  | some o =>
    have hmid : d.adc.mCurrentBuffer.map (· + d.adc.mCurrentBufferSize / 2) = some d.In.middata := by
      rw [hbuf, hsize]
      rfl
    dsimp only
    rw [hmid, hbuf]
    have hcall := classified_call full o hne
    cases full with
    | false =>
      rw [if_neg (by simpa using hfull)]
      exact hcall
    | true =>
      rw [if_pos (hfull.mpr rfl)]
      exact hcall

/-- The samples an event of that half has put into the buffer. -/
def captured (full : Bool) (capture : Storage) (b : SampleBuffer) : Storage := fun i =>
  if (if full then b.middata else b.data) ≤ i ∧ i < (if full then b.mSize else b.middata) then
    capture i
  else b.mBuffer i

/-- The DMA fills a half and the firmware takes it for that half. -/
structure HalfDone (full : Bool) (capture : Storage) (d d' : Device) : Prop where
  posts : ∃ new, d'.conv = d.conv ++ new ∧
    ∀ msg status, ConvEvent.post msg status ∈ new → MSG_FOR_FIRST msg.code = !full
  mark : d'.In.mModified = d.In.mModified ∨
    d'.In.mModified = some (if full then d.In.middata else d.In.data)
  samples : d'.In.mBuffer = captured full capture d.In

theorem transfer_samples (capture : Storage) (hdepth : d.adc.driver.depth = d.In.mSize) :
    (ADC.transfer capture d).In.mBuffer = captured d.adc.nextFull capture d.In := by
  funext i
  simp only [ADC.transfer, captured, hdepth, SampleBuffer.withStorage, SampleBuffer.middata,
    SampleBuffer.data, Nat.zero_add]

theorem halfDone_serve (capture : Storage) (hact : d.adc.driver.state = .ACTIVE)
    (hbuf : d.adc.mCurrentBuffer = some d.In.data) (hsize : d.adc.mCurrentBufferSize = d.In.mSize)
    (hdepth : d.adc.driver.depth = d.In.mSize) (hne : d.In.middata ≠ d.In.data) :
    HalfDone d.adc.nextFull capture d (ADC.serveDmaInterrupt capture d).1 := by
  have hsamples := transfer_samples capture hdepth
  unfold ADC.serveDmaInterrupt
  cases hfull : d.adc.nextFull with
  | false =>
    have h := classified_callback (d := ADC.transfer capture d) false hbuf hsize hne
      (by simp [ADC.transfer, hact])
    rw [hfull] at hsamples
    exact ⟨h.posts, h.mark, h.samples.trans hsamples⟩
  | true =>
    have h := classified_callback (d := ADC.setState .COMPLETE (ADC.transfer capture d)) true
      hbuf hsize hne (by simp [ADC.setState])
    rw [hfull] at hsamples
    simp only [if_true]
    split
    · exact ⟨h.posts, h.mark, h.samples.trans hsamples⟩
    · exact ⟨h.posts, h.mark, h.samples.trans hsamples⟩

end Event

/-- Between handlers all lengths agree; and whenever an ADC event comes, its callback's
second half is the runner's, is not the first, and is taken for the half it is. -/
theorem geometry_agrees {k : Layout} {b : Board} {tr : List (Sys × SysAct)} {s : Sys}
    (h : SysRun k b tr s) :
    (s.comm = .idle →
      s.dev.In.mSize = s.dev.Out.mSize ∧ s.dev.In.mSize % 2 = 0 ∧
      s.dev.In.mSize ≤ MAX_SAMPLE_BUFFER_SIZE ∧ s.dev.Generator.mSize ≤ MAX_SAMPLE_BUFFER_SIZE ∧
      (s.dev.adc.driver.state = .ACTIVE →
        s.dev.adc.mCurrentBuffer = some s.dev.In.data ∧
        s.dev.adc.mCurrentBufferSize = s.dev.In.mSize ∧
        s.dev.adc.driver.depth = s.dev.In.mSize ∧ (s.dev.dac 0).depth = s.dev.In.mSize) ∧
      ((s.dev.dac 1).state = .ACTIVE → (s.dev.dac 1).depth = s.dev.Generator.mSize)) ∧
    (s.dev.adc.driver.state = .ACTIVE →
      s.dev.adc.mCurrentBuffer.map (· + s.dev.adc.mCurrentBufferSize / 2) =
        some s.dev.In.middata ∧
      s.dev.In.middata ≠ s.dev.In.data ∧
      ∀ capture, HalfDone s.dev.adc.nextFull capture s.dev
        (ADC.serveDmaInterrupt capture s.dev).1) := by
  have hg := guarantees_run h
  refine ⟨fun hcomm => ?_, fun hact => ?_⟩
  · have hagree : s.dev.shape.Agree := hg.post hcomm
    refine ⟨hagree.same.symm, hagree.even, s.dev.In.size_le, s.dev.Generator.size_le, fun hact => ?_,
      hagree.generator⟩
    obtain ⟨hbuf, hsize, hdepth, -, -⟩ := hagree.active hact
    exact ⟨hbuf, hsize, hdepth, hagree.dac0 hact⟩
  · obtain ⟨hbuf, hsize, hdepth, -, -⟩ := hg.inv.active hact
    have hne := hg.inv.middata_ne hact
    refine ⟨?_, hne, fun capture => halfDone_serve capture hact hbuf hsize hdepth hne⟩
    rw [show s.dev.adc.mCurrentBuffer = some 0 from hbuf,
      show s.dev.adc.mCurrentBufferSize = s.dev.In.mSize from hsize]
    rfl

/-- A conversion of two samples, at its first event. -/
theorem geometry_agrees_two_samples :
    ∃ tr s, SysRun default default tr s ∧ tr.map Prod.snd = startSession ∧
      s.dev.adc.driver.state = .ACTIVE ∧ s.comm = .idle ∧ (s.dev.dac 0).depth = s.dev.In.mSize ∧
      s.dev.In.middata ≠ s.dev.In.data := by
  obtain ⟨tr, s, hr, hacts, hs⟩ := exists_run_of_exec default default startSession
    (fun s => s.dev.adc.driver.state == .ACTIVE && s.comm matches .idle) (by decide +kernel)
  simp only [Bool.and_eq_true, beq_iff_eq] at hs
  obtain ⟨hact, hidle⟩ := hs
  have hcomm : s.comm = .idle := by
    cases hc : s.comm with
    | idle => rfl
    | running c rest => simp [hc] at hidle
  have h := geometry_agrees hr
  exact ⟨tr, s, hr, hacts, hact, hcomm, ((h.1 hcomm).2.2.2.2.1 hact).2.2.2, (h.2 hact).2.1⟩

end Stmdsp
