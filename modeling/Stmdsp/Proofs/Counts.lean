import Stmdsp.Proofs.Replies

/-! When every transfer over the stream is for at least one byte. The drivers check it,
and the lengths come from parameters, from buffer sizes and from halves of them. -/

namespace Stmdsp

open Proc

/-- The stream accepts the call: it is for at least one byte. -/
def Call.Positive : Call → Prop
  | .read n => 0 < n
  | .write bytes => 0 < bytes.length
  | _ => True

def AllPositive (d : Device) : Prop := ∀ c ∈ d.trace, c.Positive

/-- What was added to the trace, if anything, is positive. -/
structure Positively (d d' : Device) : Prop where
  positive : AllPositive d' ↔ AllPositive d

theorem Positively.refl (d : Device) : Positively d d := ⟨Iff.rfl⟩

theorem Positively.trans (a b c : Device) (h : Positively a b) (k : Positively b c) :
    Positively a c :=
  ⟨k.positive.trans h.positive⟩

theorem Positively.of_eq {d d' : Device} (h : d'.trace = d.trace) : Positively d d' :=
  ⟨by rw [AllPositive, AllPositive, h]⟩

theorem allPositive_append {d d' : Device} {t : List Call} (h : d'.trace = d.trace ++ t) :
    AllPositive d' ↔ AllPositive d ∧ ∀ c ∈ t, c.Positive := by
  rw [AllPositive, h]
  exact List.forall_mem_append

theorem Positively.of_calls {d d' : Device} {t : List Call} (h : d'.trace = d.trace ++ t)
    (ht : ∀ c ∈ t, c.Positive) : Positively d d' :=
  ⟨(allPositive_append h).trans (and_iff_left ht)⟩

/-! ### Handlers with lengths of their own -/

section Silent

theorem positive_gets {α : Type} (f : Device → α) : Keeps Positively (Proc.gets f) :=
  keeps_gets fun d => .refl d

theorem positive_assert (c : Device → Bool) (e : Error) : Keeps Positively (EM.assert c e) := by
  apply keeps_act
  intro d
  apply Positively.of_eq
  cases c d with
  | true => rfl
  | false => rfl

theorem positive_read {n : ℕ} (hn : 0 < n) : Keeps Positively (USBSerial.read n) := by
  have hcall : ∀ c ∈ [Call.read n], c.Positive := by simpa [Call.Positive]
  exact keeps_guarded (fun _ => .of_calls rfl hcall) fun _ _ => .of_calls rfl hcall

theorem positive_write {bytes : Device → List UInt8} (h : ∀ d, 0 < (bytes d).length) :
    Keeps Positively (USBSerial.write bytes) := by
  have hcall : ∀ d, ∀ c ∈ [Call.write (bytes d)], c.Positive := by simpa [Call.Positive]
  exact keeps_guarded (fun d => .of_calls rfl (hcall d)) fun d _ => .of_calls rfl (hcall d)

theorem positive_awaitAck : Keeps Positively USBSerial.awaitAck :=
  keeps_await fun _ _ => .of_calls (t := [.read 1]) rfl (by simp [Call.Positive])

theorem positive_sclock_start : Keeps Positively SClock.start := by
  refine (keeps_act fun _ => .of_eq rfl).bind fun before => ?_
  split
  · exact (positive_gets _).bind fun _ => keeps_guarded (fun _ => .of_eq rfl) fun _ _ => .of_eq rfl
  · trivial

theorem positive_sclock_stop : Keeps Positively SClock.stop := by
  have hcall : ∀ n, ∀ c ∈ [Call.clockStop n], c.Positive := by simp [Call.Positive]
  refine (keeps_act fun _ => .of_calls rfl (hcall _)).bind fun after => ?_
  split
  · exact keeps_modify fun _ => .of_eq rfl
  · trivial

theorem positive_dac_start (channel : Fin 2) (count : ℕ) :
    Keeps Positively (DAC.start channel count) := by
  have hcall : ∀ s, ∀ c ∈ [Call.dacStart channel s count], c.Positive := by simp [Call.Positive]
  have hstart : Keeps Positively ((dacStartConversion channel count).bind fun _ => SClock.start) :=
    Keeps.bind (keeps_guarded (fun _ => .of_calls rfl (hcall _)) fun _ _ => .of_calls rfl (hcall _))
      fun _ => positive_sclock_start
  unfold DAC.start
  split
  · exact (keeps_modify fun _ => .of_eq rfl).bind fun _ => hstart
  · exact hstart

theorem positive_dac_stop (channel : Fin 2) : Keeps Positively (DAC.stop channel) :=
  Keeps.bind (keeps_guarded (fun _ => .of_eq rfl) fun _ _ => .of_eq rfl) fun _ => positive_sclock_stop

theorem positive_adc_start (buffer count : ℕ) (operation : Operation) :
    Keeps Positively (ADC.start buffer count operation) := by
  have hcall : ∀ s, ∀ c ∈ [Call.adcStart s count], c.Positive := by simp [Call.Positive]
  refine (keeps_modify fun _ => .of_eq rfl).bind fun _ => ?_
  refine (keeps_modify fun _ => .of_eq rfl).bind fun _ => ?_
  refine (keeps_modify fun _ => .of_eq rfl).bind fun _ => ?_
  refine Keeps.bind ?_ fun _ => positive_sclock_start
  exact keeps_guarded (fun _ => .of_calls rfl (hcall _)) fun _ _ => .of_calls rfl (hcall _)

theorem positive_adc_stop : Keeps Positively ADC.stop := by
  refine positive_sclock_stop.bind fun _ => Keeps.bind ?_ fun _ =>
    (keeps_modify fun _ => .of_eq rfl).bind fun _ =>
    (keeps_modify fun _ => .of_eq rfl).bind fun _ => keeps_modify fun _ => .of_eq rfl
  exact keeps_guarded (fun _ => .of_eq rfl) fun _ _ => .of_eq rfl

theorem positive_setBufferSize : Keeps Positively setBufferSize := by
  refine (positive_assert _ _).bind fun idle => ?_
  split
  · refine (positive_read Nat.two_pos).bind fun bytes => (positive_assert _ _).bind fun ok => ?_
    split
    · refine (positive_assert _ _).bind fun fits => ?_
      split
      · exact (keeps_modify fun _ => .of_eq rfl).bind fun _ => keeps_modify fun _ => .of_eq rfl
      · trivial
    · trivial
  · trivial

theorem positive_startConversion : Keeps Positively startConversion := by
  refine (positive_assert _ _).bind fun idle => ?_
  split
  · refine (keeps_modify fun _ => .of_eq rfl).bind fun _ =>
      (keeps_modify fun _ => .of_eq rfl).bind fun _ => ?_
    refine (positive_gets _).bind fun count => (positive_adc_start _ _ _).bind fun _ => ?_
    exact (positive_gets _).bind fun _ => positive_dac_start _ _
  · trivial

theorem positive_stopConversion : Keeps Positively stopConversion := by
  refine (positive_assert _ _).bind fun running => ?_
  split
  · exact ((positive_dac_stop _).bind fun _ => positive_adc_stop).bind fun _ =>
      keeps_modify fun _ => .of_eq rfl
  · trivial

theorem positive_sampleRate : Keeps Positively sampleRate := by
  refine (positive_read Nat.one_pos).bind fun bytes => (positive_assert _ _).bind fun ok => ?_
  have hrate : ∀ n, ∀ c ∈ [Call.rateLookup n], c.Positive := by simp [Call.Positive]
  have hpreset : ∀ n, ∀ c ∈ [Call.presetLookup n], c.Positive := by simp [Call.Positive]
  split
  · dsimp only
    split
    · exact (positive_gets _).bind fun _ => positive_write fun _ => Nat.one_pos
    · exact (keeps_modify fun _ => .of_calls rfl (hrate _)).bind fun _ =>
        keeps_modify fun _ => .of_calls rfl (hpreset _)
  · trivial

/-- The commands whose transfers have the length of a buffer or of a parameter, and when
that length is not 0: a transfer of a whole buffer, a new generator, an upload, and the
half of a buffer that is marked. -/
def lengthConditions : List (UInt8 × (Device → Prop)) :=
  [('A'.toUInt8, fun d => d.In.mSize ≠ 0),
   ('D'.toUInt8, fun d => (d.input.take 2).length = 2 → d.sizeParam ≤ MAX_SAMPLE_BUFFER_SIZE →
      DAC.isSigGenRunning d = false → d.sizeParam ≠ 0),
   ('E'.toUInt8, fun d => d.runStatus = .Idle → (d.input.take 2).length = 2 →
      d.sizeParam < MAX_ELF_FILE_SIZE → d.sizeParam ≠ 0),
   ('a'.toUInt8, fun d => d.In.mSize ≠ 0),
   ('d'.toUInt8, fun d => d.Out.mSize ≠ 0),
   ('s'.toUInt8, fun d => d.Out.mModified ≠ none → d.Out.mSize ≠ 0),
   ('t'.toUInt8, fun d => d.In.mModified ≠ none → d.In.mSize ≠ 0)]

def sizedCommands : List UInt8 := lengthConditions.map Prod.fst

theorem positive_dispatch {c : UInt8} (hc : c ∉ sizedCommands) : Keeps Positively (dispatch c) := by
  refine dispatch_induction c ?_ trivial
  intro x hx hcx
  subst hcx
  simp only [commandTable, List.mem_cons, List.not_mem_nil, or_false] at hx
  rcases hx with rfl | rfl | rfl | rfl | rfl | rfl | rfl | rfl | rfl | rfl | rfl | rfl | rfl | rfl |
    rfl | rfl | rfl | rfl | rfl
  · exact absurd (by decide) hc
  · exact positive_setBufferSize
  · exact absurd (by decide) hc
  · exact absurd (by decide) hc
  · refine (positive_gets _).bind fun status => (keeps_act fun _ => .of_eq rfl).bind fun error => ?_
    exact positive_write fun _ => Nat.two_pos
  · refine (positive_assert _ _).bind fun running => ?_
    split
    · exact keeps_modify fun _ => .of_eq rfl
    · trivial
  · exact positive_startConversion
  · exact positive_stopConversion
  · exact (positive_gets _).bind fun _ => positive_dac_start 1 _
  · exact absurd (by decide) hc
  · exact absurd (by decide) hc
  · exact keeps_modify fun _ => .of_eq rfl
  · exact positive_write fun _ => by decide
  · exact positive_write fun _ => Nat.succ_pos 3
  · exact positive_sampleRate
  · exact absurd (by decide) hc
  · exact absurd (by decide) hc
  · trivial
  · exact positive_dac_stop 1

end Silent

/-! ### Handlers with lengths of the host's choice -/

/-- What the handler of `c` finds so that it asks for no transfer of 0 bytes. -/
def LengthReady (c : UInt8) (d : Device) : Prop := ∀ x ∈ lengthConditions, x.1 = c → x.2 d

theorem lengthReady_iff {x : UInt8 × (Device → Prop)} (hx : x ∈ lengthConditions) (d : Device) :
    LengthReady x.1 d ↔ x.2 d := by
  have hkeys : (lengthConditions.map Prod.fst).Nodup := by decide
  constructor
  · intro h
    exact h x hx rfl
  · intro h y hy hyx
    rwa [List.inj_on_of_nodup_map hkeys hy hx hyx]

section Sized

variable {d : Device}

/-- What the run of a transfer adds is positive exactly if its length is. -/
theorem positive_read_bind {f : List UInt8 → Fw Unit} (hf : ∀ bytes, Keeps Positively (f bytes))
    (n : ℕ) (d : Device) :
    AllPositive (((USBSerial.read n).bind f).run d).state ↔ AllPositive d ∧ n ≠ 0 := by
  have hcall : ∀ t : Device, t.trace = d.trace ++ [.read n] → (AllPositive t ↔ AllPositive d ∧ n ≠ 0) := by
    intro t ht
    simp [allPositive_append ht, Call.Positive, Nat.pos_iff_ne_zero]
  rw [run_read_bind]
  split
  · rw [((hf _).run Positively.refl Positively.trans (d.afterRead n)).positive]
    exact hcall _ rfl
  · exact hcall _ rfl

theorem positive_write_run (bytes : Device → List UInt8) (d : Device) :
    AllPositive ((USBSerial.write bytes).run d).state ↔ AllPositive d ∧ (bytes d).length ≠ 0 := by
  have hcall : AllPositive (d.logCall (.write (bytes d))) ↔
      AllPositive d ∧ (bytes d).length ≠ 0 := by
    rw [allPositive_append (t := [.write (bytes d)]) rfl]
    simp [Call.Positive, List.length_pos_iff]
  rw [run_write]
  split
  · exact hcall
  · exact hcall

theorem bytesize_ne_zero {b : SampleBuffer} : b.bytesize ≠ 0 ↔ b.mSize ≠ 0 := by
  simp [SampleBuffer.bytesize]

theorem positive_writeADCBuffer :
    AllPositive (writeADCBuffer.run d).state ↔ AllPositive d ∧ d.In.mSize ≠ 0 := by
  have h := positive_read_bind (f := fun bytes => Proc.modify fun d => { d with
    In := d.In.withStorage (storeBytes d.In.mBuffer 0 bytes) })
    (fun _ => keeps_modify fun _ => .of_eq rfl) d.In.bytesize d
  rwa [bytesize_ne_zero] at h

theorem positive_readBuffer (buffer : Device → SampleBuffer) :
    AllPositive ((USBSerial.write fun d => readBytes (buffer d).mBuffer 0 (buffer d).bytesize).run
      d).state ↔ AllPositive d ∧ (buffer d).mSize ≠ 0 := by
  rw [positive_write_run, readBytes_length, bytesize_ne_zero]

theorem positive_rejected {e : Error} {n : ℕ} (hn : 0 < n) :
    AllPositive ((d.afterRead n).rejected e) ↔ AllPositive d :=
  (Positively.of_calls (t := [.read n]) rfl (by simpa [Call.Positive])).positive

theorem positive_generatorTransfer {count : ℕ} (hg : 0 < d.Generator.mSize)
    (hfits : count ≤ MAX_SAMPLE_BUFFER_SIZE) :
    AllPositive (generatorTransfer count d).state ↔
      AllPositive d ∧ (DAC.isSigGenRunning d = false → count ≠ 0) := by
  have hcalls : ∀ (t : Device) (cs : List Call), t.trace = d.trace ++ cs →
      (∀ c ∈ cs, c.Positive) → (AllPositive t ↔ AllPositive d) :=
    fun t cs ht hcs => (Positively.of_calls ht hcs).positive
  cases hrun : DAC.isSigGenRunning d with
  | true =>
    -- The size in force is positive, and so is half its bytes.
    have hhalf : 0 < d.Generator.bytesize / 2 := by
      rw [SampleBuffer.bytesize, Nat.mul_div_cancel _ Nat.two_pos]
      exact hg
    simp only [generatorTransfer, hrun, if_true, if_pos hhalf]
    rw [and_iff_left (by simp)]
    split
    · exact hcalls _ [.write [0]] rfl (by simp [Call.Positive])
    · exact hcalls _ [.write [1], .read (d.Generator.bytesize / 2)]
        (by simp [Device.afterRead, Device.logCall]) (by simpa [Call.Positive] using hhalf)
  | false =>
    have hsize : (d.Generator.setSize count).bytesize = count * 2 := by
      rw [SampleBuffer.bytesize, setSize_mSize hfits]
    simp only [generatorTransfer, hrun, Bool.false_eq_true, if_false, hsize, forall_true_left]
    have hread : ∀ t : Device, t.trace = d.trace ++ [.read (count * 2)] →
        (AllPositive t ↔ AllPositive d ∧ count ≠ 0) := by
      intro t ht
      simp [allPositive_append ht, Call.Positive, Nat.pos_iff_ne_zero]
    split
    · exact hread _ rfl
    · exact hread _ rfl

theorem positive_updateGenerator (hg : 0 < d.Generator.mSize) :
    AllPositive (updateGenerator.run d).state ↔
      AllPositive d ∧ ((d.input.take 2).length = 2 → d.sizeParam ≤ MAX_SAMPLE_BUFFER_SIZE →
        DAC.isSigGenRunning d = false → d.sizeParam ≠ 0) := by
  have hread : AllPositive (d.afterRead 2) ↔ AllPositive d :=
    (Positively.of_calls (t := [.read 2]) rfl (by simp [Call.Positive])).positive
  rw [updateGenerator_run]
  by_cases htwo : (d.input.take 2).length = 2
  · by_cases hfits : d.sizeParam ≤ MAX_SAMPLE_BUFFER_SIZE
    · rw [if_pos htwo, if_pos hfits, positive_generatorTransfer (d := d.afterRead 2) hg hfits, hread]
      simp only [htwo, hfits, forall_true_left]
      rfl
    · rw [if_pos htwo, if_neg hfits, and_iff_left fun _ h => absurd h hfits]
      exact positive_rejected Nat.two_pos
  · rw [if_neg htwo, and_iff_left fun h => absurd h htwo]
    exact positive_rejected Nat.two_pos

theorem positive_loadSegments (fuel i : ℕ) (phdr : UInt32) (loaded : Bool) :
    Keeps Positively (ELFManager.loadSegments fuel i phdr loaded) := by
  induction fuel generalizing i phdr loaded with
  | zero => trivial
  | succ fuel ih =>
    refine (positive_gets _).bind fun phnum => ?_
    split
    · exact (keeps_act fun _ => .of_eq rfl).bind fun copied => (positive_gets _).bind fun stride =>
        ih _ _ _
    · trivial

theorem positive_loadPayload (bytes : List UInt8) : Keeps Positively (loadPayload bytes) := by
  have hload : Keeps Positively ELFManager.loadFromInternalBuffer := by
    refine (keeps_modify fun _ => .of_eq rfl).bind fun _ => (positive_gets _).bind fun magic => ?_
    split
    · refine (positive_gets _).bind fun phdr => (positive_loadSegments _ _ _ _).bind fun loaded => ?_
      split
      · exact (keeps_modify fun _ => .of_eq rfl).bind fun _ => trivial
      · trivial
    · trivial
  exact (keeps_modify fun _ => .of_eq rfl).bind fun _ => hload.bind fun success =>
    (positive_assert _ _).bind fun _ => trivial

theorem positive_loadAlgorithm :
    AllPositive (loadAlgorithm.run d).state ↔
      AllPositive d ∧ (d.runStatus = .Idle → (d.input.take 2).length = 2 →
        d.sizeParam < MAX_ELF_FILE_SIZE → d.sizeParam ≠ 0) := by
  have hread : AllPositive (d.afterRead 2) ↔ AllPositive d :=
    (Positively.of_calls (t := [.read 2]) rfl (by simp [Call.Positive])).positive
  rw [loadAlgorithm_run]
  by_cases hidle : d.runStatus = .Idle
  · by_cases htwo : (d.input.take 2).length = 2
    · by_cases hfits : d.sizeParam < MAX_ELF_FILE_SIZE
      · rw [if_pos hidle, if_pos htwo, if_pos hfits, positive_read_bind positive_loadPayload, hread]
        simp only [hidle, htwo, hfits, forall_true_left]
      · rw [if_pos hidle, if_pos htwo, if_neg hfits, and_iff_left fun _ _ h => absurd h hfits]
        exact positive_rejected Nat.two_pos
    · rw [if_pos hidle, if_neg htwo, and_iff_left fun _ h => absurd h htwo]
      exact positive_rejected Nat.two_pos
  · rw [if_neg hidle, and_iff_left fun h => absurd h hidle]
    have hsame : Positively d (d.rejected .NotIdle) := .of_eq rfl
    exact hsame.positive

theorem positive_sendChunks (buffer : Device → SampleBuffer) (samps : ℕ) {total : ℕ} (offset : ℕ)
    (h : 0 < total) : Keeps Positively (sendChunks buffer samps total offset) := by
  induction total using Nat.strong_induction_on generalizing offset with
  | _ total ih =>
    have hwrite : ∀ n, 0 < n → Keeps Positively
        (USBSerial.write fun d => readBytes (buffer d).mBuffer (2 * samps + offset) n) :=
      fun n hn => positive_write fun d => by rwa [readBytes_length]
    rw [sendChunks]
    split
    · exact (hwrite 512 (by decide)).bind fun _ => positive_awaitAck.bind fun _ =>
        ih _ (by omega) _ (by omega)
    · exact (hwrite total h).bind fun _ => positive_awaitAck

/-- Without samples to send, the loop sends them nevertheless. -/
theorem positive_sendModified {buffer : Device → SampleBuffer}
    {setBuffer : SampleBuffer → Device → Device} (hb : Buffer buffer setBuffer) :
    AllPositive ((sendModified buffer setBuffer).run d).state ↔
      AllPositive d ∧ ((buffer d).mModified ≠ none → (buffer d).mSize ≠ 0) := by
  cases hm : (buffer d).mModified with
  | none =>
    rw [sendModified_none buffer setBuffer hm, and_iff_left fun h => absurd rfl h]
    exact (Positively.of_calls (t := [.write [0, 0]])
      (congrArg (· ++ _) (hb.trace _ d)) (by simp [Call.Positive])).positive
  | some m =>
    rw [sendModified_run hb hm]
    have hhead : AllPositive ((setBuffer (buffer d).taken d).logCall
        (.write (header ((buffer d).mSize / 2)))) ↔ AllPositive d :=
      (Positively.of_calls (t := [.write (header ((buffer d).mSize / 2))])
        (congrArg (· ++ _) (hb.trace _ d)) (by simp [Call.Positive, header])).positive
    rw [← hhead]
    rcases Nat.eq_zero_or_pos (buffer d).mSize with hzero | hpos
    · rw [hzero, sendChunks_zero]
      refine iff_of_false (fun h => ?_) fun h => h.2 (by simp) rfl
      exact absurd (h (.write []) (by simp [Device.logCall])) (by simp [Call.Positive])
    · rw [and_iff_left fun _ => hpos.ne']
      exact ((positive_sendChunks buffer m 0 hpos).run Positively.refl Positively.trans _).positive

end Sized

/-! ### Runs -/

/-- The next pass of the loop finds no length of 0. -/
def TransferReady (d : Device) (a : CommAct) : Prop :=
  a = .comm → ∀ c rest, d.input = c :: rest → LengthReady c (received d c rest)

/-- A handler's transfers are positive exactly if it finds no length of 0. -/
theorem positive_handler {d : Device} (c : UInt8) (hg : 0 < d.Generator.mSize) :
    AllPositive ((dispatch c).run d).state ↔ AllPositive d ∧ LengthReady c d := by
  by_cases hc : c ∈ sizedCommands
  · obtain ⟨x, hx, rfl⟩ := List.mem_map.mp hc
    rw [lengthReady_iff hx]
    simp only [lengthConditions, List.mem_cons, List.not_mem_nil, or_false] at hx
    rcases hx with rfl | rfl | rfl | rfl | rfl | rfl | rfl
    · exact positive_writeADCBuffer
    · exact positive_updateGenerator hg
    · exact positive_loadAlgorithm
    · exact positive_readBuffer (·.In)
    · exact positive_readBuffer (·.Out)
    · exact positive_sendModified buffer_Out
    · exact positive_sendModified buffer_In
  · have hready : LengthReady c d := fun x hx hxc => absurd (hxc ▸ List.mem_map_of_mem hx) hc
    rw [and_iff_left hready]
    exact ((positive_dispatch hc).run Positively.refl Positively.trans d).positive

theorem positive_threadComm {d : Device} (hg : Geometry d) :
    AllPositive (CommunicationManager.threadComm.run d).state ↔
      AllPositive d ∧ TransferReady d .comm := by
  rw [threadComm_run]
  cases hin : d.input with
  | nil => simp [TransferReady, hin]
  | cons c rest =>
    have hrec : AllPositive (received d c rest) ↔ AllPositive d :=
      (Positively.of_calls (t := [.read 1, .command c]) (by simp [received, Device.logCall])
        (by simp [Call.Positive])).positive
    have hready : TransferReady d .comm ↔ LengthReady c (received d c rest) := by
      simp [TransferReady, hin]
    rw [hready, ← hrec]
    exact positive_handler c hg.generator

theorem positive_step {d d' : Device} {a : CommAct} (hg : Geometry d) (hs : CommStep d a d') :
    AllPositive d' ↔ AllPositive d ∧ TransferReady d a := by
  cases a with
  | host bytes =>
    obtain rfl := hs
    simp [AllPositive, TransferReady]
  | env => simp [AllPositive, TransferReady, hs.trace]
  | comm =>
    have h := positive_threadComm hg
    rwa [show CommunicationManager.threadComm.run d = .ok () d' from hs] at h

/-- Over a whole run and the pass after it, which may be the one that halts: every call of
`read` and `write` is for at least one byte exactly if no handler found a length of 0. -/
theorem transfers_positive_iff {b : Board} {tr : List (Device × CommAct)} {d : Device}
    (h : CommRun b tr d) :
    AllPositive (CommunicationManager.threadComm.run d).state ↔
      ∀ p ∈ tr ++ [(d, .comm)], TransferReady p.1 p.2 := by
  rw [positive_threadComm (geometry_run h)]
  have hrun : AllPositive d ↔ ∀ p ∈ tr, TransferReady p.1 p.2 :=
    h.forall_iff (by simp [AllPositive, powerUp]) fun _ _ _ _ hr hs =>
      positive_step (geometry_run hr) hs
  rw [hrun]
  simp [or_imp, forall_and]

/-- Two samples, and a request for the buffer. -/
theorem transfers_positive_iff_two_samples :
    ∃ tr d, CommRun default tr d ∧
      tr.map Prod.snd = [.host ['B'.toUInt8, 1, 0, 'a'.toUInt8], .comm] ∧
      nextCommand d = some 'a'.toUInt8 ∧
      (AllPositive (CommunicationManager.threadComm.run d).state ↔
        ∀ p ∈ tr ++ [(d, .comm)], TransferReady p.1 p.2) := by
  obtain ⟨tr, hr, hacts⟩ := run_of_execActs (powerUp default)
    [.host ['B'.toUInt8, 1, 0, 'a'.toUInt8], .comm] rfl
  exact ⟨tr, _, hr, hacts, rfl, transfers_positive_iff hr⟩

theorem not_allPositive {d : Device} {t : List Call} {c : Call} (ht : d.trace = t ++ [c])
    (hc : ¬ c.Positive) : ¬ AllPositive d :=
  fun h => hc (h c (by simp [ht]))

/-- Three ways to a transfer of no bytes: a buffer set to no samples and then read, an
empty generator, an empty upload. -/
theorem transfers_empty :
    (∃ tr d, CommRun default tr d ∧
      tr.map Prod.snd = [.host ['B'.toUInt8, 0, 0, 'A'.toUInt8], .comm] ∧
      ¬ AllPositive (CommunicationManager.threadComm.run d).state) ∧
    (∃ tr d, CommRun default tr d ∧ tr.map Prod.snd = [.host ['D'.toUInt8, 0, 0]] ∧
      ¬ AllPositive (CommunicationManager.threadComm.run d).state) ∧
    (∃ tr d, CommRun default tr d ∧ tr.map Prod.snd = [.host ['E'.toUInt8, 0, 0]] ∧
      ¬ AllPositive (CommunicationManager.threadComm.run d).state) := by
  have hcall : ¬ (Call.read 0).Positive := by simp [Call.Positive]
  refine ⟨?_, ?_, ?_⟩
  · obtain ⟨tr, hr, hacts⟩ := run_of_execActs (powerUp default)
      [.host ['B'.toUInt8, 0, 0, 'A'.toUInt8], .comm] rfl
    exact ⟨tr, _, hr, hacts, not_allPositive
      (t := [.read 1, .command 'B'.toUInt8, .read 2, .read 1, .command 'A'.toUInt8])
      (by decide +kernel) hcall⟩
  · obtain ⟨tr, hr, hacts⟩ := run_of_execActs (powerUp default) [.host ['D'.toUInt8, 0, 0]] rfl
    exact ⟨tr, _, hr, hacts, not_allPositive (t := [.read 1, .command 'D'.toUInt8, .read 2])
      (by decide +kernel) hcall⟩
  · obtain ⟨tr, hr, hacts⟩ := run_of_execActs (powerUp default) [.host ['E'.toUInt8, 0, 0]] rfl
    exact ⟨tr, _, hr, hacts, not_allPositive (t := [.read 1, .command 'E'.toUInt8, .read 2])
      (by decide +kernel) hcall⟩

end Stmdsp
