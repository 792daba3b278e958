import Stmdsp.Proofs.BlockCopy
import Stmdsp.Proofs.Recovery

/-! From a half of `In` to the same half of `Out`: an ADC event, its message, the
algorithm on the samples the message names, and the copy of its result. -/

namespace Stmdsp

abbrev Block (n : ℕ) := Fin n → Sample

/-- Where a half of a buffer of `2 * n` samples starts. -/
def halfStart (n : ℕ) (first : Bool) : ℕ := if first then 0 else n

/-- The `n` samples from `start` on. -/
def block (n start : ℕ) (mem : Storage) : Block n := fun i => mem (start + i)

/-- A conversion runs on buffers of `2 * n` samples. -/
structure Setup (n : ℕ) (d : Device) : Prop where
  inSize : d.In.mSize = 2 * n
  outSize : d.Out.mSize = 2 * n
  adcDriver : d.adc.driver = ⟨.ACTIVE, 2 * n⟩
  currentBuffer : d.adc.mCurrentBuffer = some d.In.data
  currentBufferSize : d.adc.mCurrentBufferSize = 2 * n
  operation : d.adc.mOperation ≠ none
  reset : d.mMailbox.reset = false

theorem Setup.stable {n : ℕ} {d d' : Device} (h : Setup n d) (hr : Rely d d')
    (hreset : d'.mMailbox.reset = false) : Setup n d' where
  inSize := hr.inSize.trans h.inSize
  outSize := hr.outSize.trans h.outSize
  adcDriver := hr.adcDriver.trans h.adcDriver
  currentBuffer := hr.currentBuffer.trans h.currentBuffer
  currentBufferSize := hr.currentBufferSize.trans h.currentBufferSize
  operation := mt hr.operation.mp h.operation
  reset := hreset

theorem Setup.step {k : Layout} {n : ℕ} {s s' : Sys} {a : SysAct} (h : Setup n s.dev)
    (hs : sysStep k s a = some s') (ha : a ≠ .comm) : Setup n s'.dev := by
  rcases (sysStep_effect h.reset hs).2 with rfl | ⟨bytes, -, rfl⟩ | hf
  · exact absurd rfl ha
  · exact { h with }
  · exact h.stable hf.rely (hf.reset.trans h.reset)

/-! ### The event -/

section Event

variable {n : ℕ} {d : Device} {first : Bool}

/-- What the handler of an event that completes a half leaves: one message, which
names the half. -/
structure Posted (first : Bool) (d d' : Device) : Prop where
  queue : ∃ msg, d'.mMailbox.queue = [msg] ∧ MSG_FOR_FIRST msg.code = first
  inBuffer : d'.In.mBuffer = d.In.mBuffer
  mEntry : d'.mEntry = d.mEntry
  nextFull : d'.adc.nextFull = d.adc.nextFull

theorem post_posted (code : ℕ) (hq : d.mMailbox.queue = []) (hr : d.mMailbox.reset = false)
    (hcode : MSG_FOR_FIRST code = first) : Posted first d (ConversionManager.post code d) := by
  obtain ⟨hq', -, -⟩ := post_free (d := d) code hr (by simp [hq])
  exact ⟨⟨⟨code, d.adc.events⟩, by simpa [hq] using hq', hcode⟩, rfl, rfl, rfl⟩

/-- The handler tells the halves apart by the pointer it gets. -/
theorem postHalf_posted {a b : ℕ} {buffer : Option ℕ} (hq : d.mMailbox.queue = [])
    (hr : d.mMailbox.reset = false) (hbuffer : buffer = some d.In.data ↔ first = true)
    (ha : MSG_FOR_FIRST a = true) (hb : MSG_FOR_FIRST b = false) :
    Posted first d (ConversionManager.postHalf a b buffer d) := by
  unfold ConversionManager.postHalf
  cases first with
  | true =>
    rw [if_pos (hbuffer.mpr rfl)]
    exact { post_posted (d := { d with In := d.In.setModified }) a hq hr ha with }
  | false =>
    rw [if_neg (by simpa using hbuffer)]
    exact { post_posted (d := { d with In := d.In.setMidmodified }) b hq hr hb with }

theorem call_posted (o : Operation) {buffer : Option ℕ} (hq : d.mMailbox.queue = [])
    (hr : d.mMailbox.reset = false) (hbuffer : buffer = some d.In.data ↔ first = true) :
    (o.call buffer d).2 = false ∧ Posted first d (o.call buffer d).1 := by
  cases o with
  | adcReadHandler =>
    have hover : ConversionManager.overrun d = false := by
      simp [ConversionManager.overrun, Mailbox.chMBGetUsedCountI, hq]
    simp only [Operation.call, ConversionManager.adcReadHandler, hover, Bool.false_eq_true, if_false]
    exact ⟨trivial, postHalf_posted hq hr hbuffer rfl rfl⟩
  | adcReadHandlerMeasure =>
    exact ⟨rfl, { postHalf_posted hq hr hbuffer rfl rfl with }⟩

/-- `conversionCallback` hands on the half that is complete. -/
theorem callback_posted (hn : 1 ≤ n) (hq : d.mMailbox.queue = []) (hr : d.mMailbox.reset = false)
    (hbuf : d.adc.mCurrentBuffer = some d.In.data) (hsize : d.adc.mCurrentBufferSize = 2 * n)
    (hop : d.adc.mOperation ≠ none) (hstate : d.adc.driver.state = .COMPLETE ↔ first = false) :
    (ADC.conversionCallback d).2 = false ∧ Posted first d (ADC.conversionCallback d).1 := by
  unfold ADC.conversionCallback
  split
  · contradiction
  · rename_i o _
    cases first with
    | true =>
      rw [if_neg (by simpa using hstate)]
      exact call_posted o hq hr (by simp [hbuf])
    | false =>
      rw [if_pos (hstate.mpr rfl)]
      refine call_posted o hq hr (iff_of_false ?_ (by simp))
      rw [hbuf, hsize]
      simp only [Option.map_some, Option.some.injEq]
      omega

/-- An ADC event on an empty pipeline. -/
theorem serve_posted (capture : Storage) (hn : 1 ≤ n) (h : Setup n d) (hq : d.mMailbox.queue = []) :
    (ADC.serveDmaInterrupt capture d).2 = false ∧
      Posted (!d.adc.nextFull) (ADC.transfer capture d) (ADC.serveDmaInterrupt capture d).1 := by
  unfold ADC.serveDmaInterrupt
  cases hfull : d.adc.nextFull with
  | false =>
    simp only [Bool.false_eq_true, if_false]
    have hhalf : (ADC.transfer capture d).adc.driver.state = .COMPLETE ↔ true = false := by
      simp [ADC.transfer, h.adcDriver]
    exact callback_posted (d := ADC.transfer capture d) hn hq h.reset h.currentBuffer
      h.currentBufferSize h.operation hhalf
  | true =>
    have hfull' : (ADC.setState .COMPLETE (ADC.transfer capture d)).adc.driver.state = .COMPLETE ↔
        false = false := by
      simp [ADC.setState]
    obtain ⟨hno, hp⟩ := callback_posted (d := ADC.setState .COMPLETE (ADC.transfer capture d)) hn hq
      h.reset h.currentBuffer h.currentBufferSize h.operation hfull'
    simp only [if_true]
    refine ⟨hno, ?_⟩
    split <;> exact { hp with }

end Event

/-! ### The algorithm's result -/

/-- Not a pointer into `Out`. -/
def Ptr.apart : Ptr → Bool
  | .output _ => false
  | _ => true

/-- Everything a pointer can point at, and the loaded algorithm, are the same. -/
structure SameSamples (d d' : Device) : Prop where
  inBuffer : d'.In.mBuffer = d.In.mBuffer
  out : d'.Out = d.Out
  generator : d'.Generator.mBuffer = d.Generator.mBuffer
  mem : d'.mem = d.mem
  mEntry : d'.mEntry = d.mEntry

section Result

variable {n : ℕ} {y : Block n} {d d' : Device} {p : Ptr}

/-- The `n` samples behind the pointer. -/
def Ptr.block (n : ℕ) (d : Device) (p : Ptr) : Block n := fun i => p.load d i

theorem SameSamples.load (h : SameSamples d d') (p : Ptr) (i : ℕ) : p.load d' i = p.load d i := by
  cases p <;> simp [Ptr.load, h.inBuffer, h.out, h.generator, h.mem]

theorem SameSamples.source (h : SameSamples d d') (p : Ptr) : p.source d' = p.source d := by
  funext out i
  cases p <;> simp [Ptr.source, Ptr.load, h.inBuffer, h.out, h.generator, h.mem]

theorem SameSamples.block (h : SameSamples d d') (p : Ptr) : p.block n d' = p.block n d :=
  funext fun i => h.load p i

/-- What is written to `Out` does not show through the pointer. -/
theorem load_apart (hp : p.apart = true) (d : Device) (out : SampleBuffer) :
    (fun i => p.load { d with Out := out } i) = fun i => p.load d i := by
  cases p with
  | output j => simp [Ptr.apart] at hp
  | _ => rfl

theorem source_apart (hp : p.apart = true) (d : Device) : p.source d = fun _ i => p.load d i :=
  funext fun out => load_apart hp d (d.Out.withStorage out)

/-- Copying the whole block stores the result. -/
theorem copyLoop_block {start : ℕ} {mem : Storage} (hn : 1 ≤ n) (hp : p.apart = true)
    (hy : p.block n d = y) :
    block n start (copyLoop (p.source d) start (roundUp16 n / 2) 0 mem) = y := by
  obtain ⟨m, hm, hm'⟩ := roundUp16_blocks hn
  have hle := le_roundUp16 n
  funext i
  have hi := i.isLt
  rw [block, source_apart hp, hm, copyLoop_inside m (by omega) (by omega), ← hy]
  simp [Ptr.block]

end Result

/-! ### Handling a message -/

/-- What a thread may do while a message is handled, for an algorithm with the
result `y`: it returns a pointer to its samples, outside of `Out`. -/
def handling {n : ℕ} (y : Block n) (d : Device) : SysAct → Bool
  | .monitor => true
  | .runner (.ret (some p)) => p.apart && decide (p.block n d = y)
  | .runner (.ret none) => false
  | .runner _ => true
  | .host _ => true
  | .dac _ => true
  | _ => false

def HandleStep {n : ℕ} (k : Layout) (y : Block n) (s : Sys) (a : SysAct) (s' : Sys) : Prop :=
  GuardedStep (fun s a => allowed s a && handling y s.dev a) k s a s'

/-- How far the runner is with a message for the given half. -/
inductive RunnerPhase {n : ℕ} (first : Bool) (y : Block n) (d : Device) : Runner → Prop where
  | received (msg : Msg) (hmsg : MSG_FOR_FIRST msg.code = first)
      (hid : d.mEntry = 0 → block n (halfStart n first) d.In.mBuffer = y) :
      RunnerPhase first y d (.received msg)
  | starting (msg : Msg) (hmsg : MSG_FOR_FIRST msg.code = first) :
      RunnerPhase first y d (.starting msg n)
  | user (msg : Msg) (ctx : Context) (hmsg : MSG_FOR_FIRST msg.code = first) :
      RunnerPhase first y d (.user msg n ctx)
  | syscall (msg : Msg) (ctx : Context) (num r0 : UInt32) (hmsg : MSG_FOR_FIRST msg.code = first) :
      RunnerPhase first y d (.syscall msg n ctx num r0)
  | stopping (msg : Msg) (p : Ptr) (hmsg : MSG_FOR_FIRST msg.code = first) (hp : p.apart = true)
      (hy : p.block n d = y) : RunnerPhase first y d (.stopping msg n (some p))
  | returned (msg : Msg) (p : Ptr) (hmsg : MSG_FOR_FIRST msg.code = first) (hp : p.apart = true)
      (hy : p.block n d = y) : RunnerPhase first y d (.returned msg n (some p))
  /-- What is left to copy completes the half. -/
  | copying (msg : Msg) (p : Ptr) (w : ℕ) (hp : p.apart = true)
      (hmark : d.Out.mModified = some (halfStart n first))
      (hcopy : block n (halfStart n first)
        (copyLoop (p.source d) (halfStart n first) (roundUp16 n / 2) w d.Out.mBuffer) = y) :
      RunnerPhase first y d (.copying msg p (halfStart n first) (roundUp16 n / 2) w)
  | stored (r : Runner) (hr : r = .top ∨ r = .waiting)
      (hmark : d.Out.mModified = some (halfStart n first))
      (hout : block n (halfStart n first) d.Out.mBuffer = y) : RunnerPhase first y d r

theorem RunnerPhase.frame {n : ℕ} {first : Bool} {y : Block n} {d d' : Device} {r : Runner}
    (h : RunnerPhase first y d r) (hd : SameSamples d d') : RunnerPhase first y d' r := by
  cases h with
  | received msg hmsg hid =>
    exact .received msg hmsg (by rw [hd.mEntry, hd.inBuffer]; exact hid)
  | starting msg hmsg => exact .starting msg hmsg
  | user msg ctx hmsg => exact .user msg ctx hmsg
  | syscall msg ctx num r0 hmsg => exact .syscall msg ctx num r0 hmsg
  | stopping msg p hmsg hp hy => exact .stopping msg p hmsg hp ((hd.block p).trans hy)
  | returned msg p hmsg hp hy => exact .returned msg p hmsg hp ((hd.block p).trans hy)
  | copying msg p w hp hmark hcopy =>
    exact .copying msg p w hp (by rw [hd.out]; exact hmark) (by rw [hd.source, hd.out]; exact hcopy)
  | stored r hr hmark hout =>
    exact .stored r hr (by rw [hd.out]; exact hmark) (by rw [hd.out]; exact hout)

section RunnerSteps

variable {k : Layout} {n : ℕ} {first : Bool} {y : Block n} {s s' : Sys} {a : RunnerAct}

theorem beginMessage_phase {msg : Msg} {ctx : Context} (hset : Setup n s.dev)
    (hmsg : MSG_FOR_FIRST msg.code = first)
    (hid : s.dev.mEntry = 0 → block n (halfStart n first) s.dev.In.mBuffer = y)
    (hs : s.beginMessage k msg ctx = some s') : RunnerPhase first y s'.dev s'.runner := by
  have hsize : s.dev.In.mSize / 2 = n := by
    rw [hset.inSize]
    omega
  simp only [Sys.beginMessage, hmsg, hsize] at hs
  split at hs
  · split at hs
    · cases hs
      exact .starting msg hmsg
    · split at hs
      · cases hs
        exact .user msg ctx hmsg
      · simp at hs
  · rename_i hentry
    cases hs
    refine .returned msg _ hmsg rfl ?_
    rw [← hid (by simpa using hentry)]
    -- With no algorithm the samples stored are those of `In` itself.
    cases first with
    | true => rfl
    | false =>
      funext i
      simp [Ptr.block, Ptr.load, block, halfStart, middata_half hset.inSize]

theorem beginStore_phase {msg : Msg} {p : Ptr} (hn : 1 ≤ n) (hset : Setup n s.dev)
    (hmsg : MSG_FOR_FIRST msg.code = first) (hp : p.apart = true)
    (hy : p.block n s.dev = y) :
    RunnerPhase first y (s.beginStore msg n p).dev (s.beginStore msg n p).runner := by
  have hload (out : SampleBuffer) : p.block n { s.dev with Out := out } = y := by
    rw [← hy]
    exact funext fun i => congrFun (load_apart hp s.dev out) i
  unfold Sys.beginStore
  cases first with
  | true =>
    simp only [hmsg, if_true, modifySize_half hn hset.outSize]
    exact .copying msg p 0 hp rfl (copyLoop_block hn hp (hload _))
  | false =>
    simp only [hmsg, Bool.false_eq_true, if_false, midmodifySize_half hset.outSize,
      middata_half hset.outSize]
    refine .copying msg p 0 hp ?_ (copyLoop_block hn hp (hload _))
    rw [SampleBuffer.setMidmodified, middata_half hset.outSize]
    rfl

/-- One block of the copy leaves the rest of it to do. -/
theorem copyBlock_phase {msg : Msg} {p : Ptr} {w : ℕ} (hp : p.apart = true)
    (hmark : s.dev.Out.mModified = some (halfStart n first))
    (hcopy : block n (halfStart n first)
      (copyLoop (p.source s.dev) (halfStart n first) (roundUp16 n / 2) w s.dev.Out.mBuffer) = y) :
    RunnerPhase first y (s.copyBlock msg p (halfStart n first) (roundUp16 n / 2) w).dev
      (s.copyBlock msg p (halfStart n first) (roundUp16 n / 2) w).runner := by
  have hsource (out : SampleBuffer) : p.source { s.dev with Out := out } = p.source s.dev := by
    rw [source_apart hp, source_apart hp, load_apart hp]
  rw [copyLoop] at hcopy
  unfold Sys.copyBlock
  dsimp only at hcopy ⊢
  split
  · rename_i hmore
    rw [if_pos hmore] at hcopy
    exact .copying msg p (w + 8) hp hmark (by rw [hsource]; exact hcopy)
  · rename_i hlast
    rw [if_neg hlast] at hcopy
    exact .stored _ (.inl rfl) hmark hcopy

theorem sameSamples_tmLast (last : UInt32) (d : Device) : SameSamples d { d with tmLast := last } :=
  ⟨rfl, rfl, rfl, rfl, rfl⟩

theorem RunnerPhase.step {r : Runner} (h : RunnerPhase first y s.dev r) (hr : s.runner = r)
    (hn : 1 ≤ n) (hset : Setup n s.dev) (hm : s.monitor = .fetching)
    (hh : handling y s.dev (.runner a) = true) (hs : s.runnerStep k a = some s') :
    RunnerPhase first y s'.dev s'.runner := by
  unfold Sys.runnerStep at hs
  rw [hr] at hs
  cases h with
  | received msg hmsg hid =>
    cases a <;> simp only [reduceCtorEq] at hs
    exact beginMessage_phase hset hmsg hid hs
  | starting msg hmsg =>
    cases a <;> simp only [reduceCtorEq] at hs
    split at hs
    · cases hs
      exact .user msg _ hmsg
    · simp at hs
  | user msg ctx hmsg =>
    cases a <;> simp only [reduceCtorEq] at hs
    case compute ctx' w =>
      cases hs
      exact .user msg ctx' hmsg
    case svc num r0 =>
      split at hs
      · simp at hs
      · cases hs
        exact .syscall msg ctx num r0 hmsg
    case ret samples =>
      cases hs
      cases samples with
      | none => simp [handling] at hh
      | some p =>
        simp only [handling, Bool.and_eq_true, decide_eq_true_eq] at hh
        split
        · exact .stopping msg p hmsg hh.1 hh.2
        · exact .returned msg p hmsg hh.1 hh.2
  | syscall msg ctx num r0 hmsg =>
    cases a <;> simp only [reduceCtorEq] at hs
    split at hs
    · cases hs
      exact .user msg ctx hmsg
    · simp at hs
  | stopping msg p hmsg hp hy =>
    cases a <;> simp only [reduceCtorEq] at hs
    cases hs
    exact (RunnerPhase.returned msg p hmsg hp hy).frame (sameSamples_tmLast _ _)
  | returned msg p hmsg hp hy =>
    cases a <;> simp only [reduceCtorEq] at hs
    cases hs
    exact beginStore_phase hn hset hmsg hp hy
  | copying msg p w hp hmark hcopy =>
    cases a <;> simp only [reduceCtorEq] at hs
    cases hs
    exact copyBlock_phase hp hmark hcopy
  | stored r hstored hmark hout =>
    rcases hstored with rfl | rfl
    · cases a <;> simp only [reduceCtorEq] at hs
      cases hs
      exact .stored _ (.inr rfl) hmark hout
    · cases a <;> simp [hm] at hs

end RunnerSteps

/-- Where the message is: in the mailbox, with the monitor, or with the runner. -/
inductive Phase {n : ℕ} (first : Bool) (y : Block n) (s : Sys) : Prop where
  | queued (msg : Msg) (hq : s.dev.mMailbox.queue = [msg]) (hm : s.monitor = .fetching)
      (hr : s.runner = .top ∨ s.runner = .waiting) (hmsg : MSG_FOR_FIRST msg.code = first)
      (hid : s.dev.mEntry = 0 → block n (halfStart n first) s.dev.In.mBuffer = y)
  | sent (msg : Msg) (hq : s.dev.mMailbox.queue = []) (hm : s.monitor = .sending msg)
      (hr : s.runner = .waiting) (hmsg : MSG_FOR_FIRST msg.code = first)
      (hid : s.dev.mEntry = 0 → block n (halfStart n first) s.dev.In.mBuffer = y)
  | handled (hq : s.dev.mMailbox.queue = []) (hm : s.monitor = .fetching)
      (hp : RunnerPhase first y s.dev s.runner)

section Phases

variable {k : Layout} {n : ℕ} {first : Bool} {y : Block n} {s s' : Sys}

theorem message_eq_none {r : Runner} : r.message = none ↔ r = .top ∨ r = .waiting := by
  cases r <;> simp [Runner.message]

theorem Phase.monitor (h : Phase first y s) (hallowed : allowed s .monitor = true)
    (hs : s.monitorStep = some s') : Phase first y s' := by
  unfold Sys.monitorStep at hs
  split at hs
  · simp at hs
  · rename_i hfetching
    split at hs
    · rename_i msg' mb hfetch
      obtain ⟨hqueue, -⟩ := Mailbox.fetch_message hfetch
      cases hs
      cases h with
      | queued msg hq hm hr hmsg hid =>
        obtain ⟨rfl, hmb⟩ := List.cons.inj (hq.symm.trans hqueue)
        exact .sent msg hmb.symm rfl (by simpa [allowed] using hallowed) hmsg hid
      | sent msg hq hm => simp [hfetching] at hm
      | handled hq => simp [hq] at hqueue
    · cases hs
      exact h
    · simp at hs

theorem Phase.runner {a : RunnerAct} (h : Phase first y s) (hn : 1 ≤ n) (hset : Setup n s.dev)
    (hh : handling y s.dev (.runner a) = true) (hs : s.runnerStep k a = some s') :
    Phase first y s' := by
  cases h with
  | queued msg hq hm hr hmsg hid =>
    rcases hr with hr | hr
    · obtain ⟨rfl, hw⟩ := runnerStep_top hr hs
      simp only [Sys.runnerStep, hr, Option.some.injEq] at hs
      subst hs
      exact .queued msg hq hm (.inr rfl) hmsg hid
    · obtain rfl := runnerStep_waiting hr hs
      simp [Sys.runnerStep, hr, hm] at hs
  | sent msg hq hm hr hmsg hid =>
    obtain rfl := runnerStep_waiting hr hs
    simp only [Sys.runnerStep, hr, hm, Option.some.injEq] at hs
    subst hs
    exact .handled hq rfl (.received msg hmsg hid)
  | handled hq hm hp =>
    have hp' := hp.step rfl hn hset hm hh hs
    cases (runner_effect hs).1 with
    | receive msg _ _ hsending => simp [hm] at hsending
    | work _ _ _ hmail _ hm' => exact .handled ((congrArg MailView.queue hmail).trans hq) (hm'.trans hm) hp'

/-- Neither the host nor the generator's DAC touches samples or messages. -/
theorem Phase.frame {d : Device} (h : Phase first y s) (hd : SameSamples s.dev d)
    (hq : d.mMailbox = s.dev.mMailbox) : Phase first y { s with dev := d } := by
  cases h with
  | queued msg hq' hm hr hmsg hid =>
    exact .queued msg (by rw [hq]; exact hq') hm hr hmsg (by rw [hd.mEntry, hd.inBuffer]; exact hid)
  | sent msg hq' hm hr hmsg hid =>
    exact .sent msg (by rw [hq]; exact hq') hm hr hmsg (by rw [hd.mEntry, hd.inBuffer]; exact hid)
  | handled hq' hm hp => exact .handled (by rw [hq]; exact hq') hm (hp.frame hd)

theorem Phase.step {a : SysAct} (h : Phase first y s) (hn : 1 ≤ n) (hset : Setup n s.dev)
    (hs : HandleStep k y s a s') : Phase first y s' := by
  obtain ⟨hok, hstep⟩ := hs
  simp only [Bool.and_eq_true] at hok
  replace hstep := sysStep_act hstep
  cases a with
  | host bytes =>
    cases hstep
    exact h.frame ⟨rfl, rfl, rfl, rfl, rfl⟩ rfl
  | dac full =>
    obtain ⟨-, rfl⟩ := act_dac hstep
    exact h.frame ⟨rfl, rfl, rfl, rfl, rfl⟩ rfl
  | monitor => exact h.monitor hok.1 hstep
  | runner a => exact h.runner hn hset hok.2 hstep
  | comm => simp [handling] at hok
  | adc capture => simp [handling] at hok
  | memFault lr => simp [handling] at hok
  | hardFault lr => simp [handling] at hok

/-- A handled message has left its result. -/
theorem Phase.stored (h : Phase first y s) (hq : Quiescent s) :
    block n (halfStart n first) s.dev.Out.mBuffer = y ∧
      s.dev.Out.modified.1 = some (halfStart n first) := by
  cases h with
  | queued msg hq' => simp [hq.queue] at hq'
  | sent msg _ hm => simp [hq.monitor] at hm
  | handled _ _ hp =>
    have hr := message_eq_none.mp hq.runner
    generalize s.runner = r at hp hr
    cases hp with
    | stored r _ hmark hout => exact ⟨hout, hmark⟩
    | _ => simp at hr

end Phases

/-! ### Streams of events -/

/-- Between the messages of a conversion. -/
structure Converting (n : ℕ) (s : Sys) : Prop where
  setup : Setup n s.dev
  quiescent : Quiescent s

/-- One event and its handling: the half, the kind of message, whether an algorithm
was loaded, that half of `In` at the event, and that half of `Out` and the mark when
the message had been handled. -/
structure Conversion (n : ℕ) where
  first : Bool
  measured : Bool
  loaded : Bool
  input : Block n
  output : Block n
  mark : Option ℕ

def Sys.loaded (s : Sys) : Bool := s.dev.mEntry != 0

/-- The half of `In` that the event from `s` to `s₁` completes. -/
def Sys.completed (n : ℕ) (s s₁ : Sys) : Block n :=
  block n (halfStart n !s.dev.adc.nextFull) s₁.dev.In.mBuffer

/-- The event from `s` to `s₁`, handled in `s₂`. -/
def Conversion.of (n : ℕ) (s s₁ s₂ : Sys) : Conversion n where
  first := !s.dev.adc.nextFull
  measured := s.dev.adc.mOperation == some .adcReadHandlerMeasure
  loaded := s.loaded
  input := s.completed n s₁
  output := block n (halfStart n !s.dev.adc.nextFull) s₂.dev.Out.mBuffer
  mark := s₂.dev.Out.modified.1

/-- What becomes of a block of samples, with `f` for the algorithm. -/
def applied {n : ℕ} (f : Block n → Block n) (loaded : Bool) (x : Block n) : Block n :=
  if loaded then f x else x

/-- A conversion whose messages are all handled before the next event. Between them
anything may happen that leaves the conversion set up. -/
inductive Stream (k : Layout) (n : ℕ) (f : Block n → Block n) (s₀ : Sys) :
    List (Conversion n) → Sys → Prop where
  | nil : Stream k n f s₀ [] s₀
  | commands {evs : List (Conversion n)} {s s' : Sys} {tr : List (Sys × SysAct)}
      (h : Stream k n f s₀ evs s) (hr : Run (PrioStep k) s tr s') (hset : Converting n s') :
      Stream k n f s₀ evs s'
  | event {evs : List (Conversion n)} {s s₁ s₂ : Sys} {capture : Storage}
      {tr : List (Sys × SysAct)} (h : Stream k n f s₀ evs s)
      (he : PrioStep k s (.adc capture) s₁)
      (hr : Run (HandleStep k (applied f s.loaded (s.completed n s₁))) s₁ tr s₂)
      (hq : Quiescent s₂) : Stream k n f s₀ (evs ++ [.of n s s₁ s₂]) s₂

section Streams

variable {k : Layout} {n : ℕ} {f : Block n → Block n} {s₀ s s₁ s₂ : Sys}
  {evs : List (Conversion n)}

/-- An event of a quiescent conversion. -/
theorem Converting.event {capture : Storage} (h : Converting n s) (hn : 1 ≤ n)
    (he : PrioStep k s (.adc capture) s₁) :
    Setup n s₁.dev ∧
      Phase (!s.dev.adc.nextFull) (applied f s.loaded (s.completed n s₁)) s₁ := by
  refine ⟨h.setup.step he.2 (by simp), ?_⟩
  obtain ⟨hno, hp⟩ := serve_posted capture hn h.setup h.quiescent.queue
  obtain ⟨-, ⟨habort, -⟩ | ⟨-, rfl⟩⟩ := adcStep_cases (sysStep_act he.2)
  · simp [hno] at habort
  · obtain ⟨msg, hq, hmsg⟩ := hp.queue
    refine .queued msg hq h.quiescent.monitor (message_eq_none.mp h.quiescent.runner) hmsg ?_
    intro hentry
    have hnone : s.dev.mEntry = 0 := hp.mEntry.symm.trans hentry
    rw [show s.loaded = false by simp [Sys.loaded, hnone]]
    rfl

/-- The message of an event, up to the end of its handling. -/
theorem Phase.run {first : Bool} {y : Block n} {tr : List (Sys × SysAct)} (h : Phase first y s)
    (hn : 1 ≤ n) (hset : Setup n s.dev) (hr : Run (HandleStep k y) s tr s₁) :
    Setup n s₁.dev ∧ Phase first y s₁ := by
  refine hr.invariant (I := fun s => Setup n s.dev ∧ Phase first y s) ⟨hset, h⟩ ?_
  rintro s a s' ⟨hset, hphase⟩ hs
  refine ⟨hset.step hs.2 ?_, hphase.step hn hset hs⟩
  rintro rfl
  simp [HandleStep, GuardedStep, handling] at hs

end Streams

instance (n : ℕ) (d : Device) : Decidable (Setup n d) :=
  decidable_of_iff (d.In.mSize = 2 * n ∧ d.Out.mSize = 2 * n ∧ d.adc.driver = ⟨.ACTIVE, 2 * n⟩ ∧
      d.adc.mCurrentBuffer = some d.In.data ∧ d.adc.mCurrentBufferSize = 2 * n ∧
      d.adc.mOperation ≠ none ∧ d.mMailbox.reset = false)
    ⟨fun ⟨a, b, c, d, e, f, g⟩ => ⟨a, b, c, d, e, f, g⟩,
      fun ⟨a, b, c, d, e, f, g⟩ => ⟨a, b, c, d, e, f, g⟩⟩

instance (s : Sys) : Decidable (Quiescent s) :=
  decidable_of_iff (s.dev.mMailbox.queue = [] ∧ s.monitor = .fetching ∧ s.runner.message = none)
    ⟨fun ⟨a, b, c⟩ => ⟨a, b, c⟩, fun ⟨a, b, c⟩ => ⟨a, b, c⟩⟩

instance (n : ℕ) (s : Sys) : Decidable (Converting n s) :=
  decidable_of_iff (Setup n s.dev ∧ Quiescent s) ⟨fun ⟨a, b⟩ => ⟨a, b⟩, fun ⟨a, b⟩ => ⟨a, b⟩⟩

/-- One event and a schedule that handles it. -/
def execEvent {n : ℕ} (k : Layout) (f : Block n → Block n) (capture : Storage)
    (acts : List SysAct) (s : Sys) : Option Sys :=
  (sysStep k s (.adc capture)).bind fun s₁ =>
    execGuarded (fun t a => allowed t a && handling (applied f s.loaded (s.completed n s₁)) t.dev a)
      k s₁ acts

theorem Stream.exec {k : Layout} {n : ℕ} {f : Block n → Block n} {s₀ s s₂ : Sys}
    {evs : List (Conversion n)} {capture : Storage} {acts : List SysAct}
    (h : Stream k n f s₀ evs s) (he : execEvent k f capture acts s = some s₂)
    (hq : Quiescent s₂) :
    ∃ c, c.measured = (s.dev.adc.mOperation == some .adcReadHandlerMeasure) ∧
      Stream k n f s₀ (evs ++ [c]) s₂ := by
  obtain ⟨s₁, hs, hx⟩ := Option.bind_eq_some_iff.mp he
  obtain ⟨tr, hr, -⟩ := run_of_exec hx
  exact ⟨_, rfl, h.event ⟨rfl, hs⟩ hr hq⟩

end Stmdsp
