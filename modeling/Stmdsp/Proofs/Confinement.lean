import Mathlib.Data.List.GetD
import Stmdsp.Lib.Ignores
import Stmdsp.Proofs.Images
import Stmdsp.Proofs.Rates
import Stmdsp.Proofs.Replies

/-! How far the handlers reach. A pass of the loop that ignores what lies behind the sample
buffers and the rate tables has neither read nor written there. -/

namespace Stmdsp

open Proc

/-! ### What lies behind the arrays -/

/-- Memory behind the sample buffers, `SClock::m_rate_divs` and the presets of
`ADC::setRate`. -/
structure Past where
  In : Storage
  Out : Storage
  Generator : Storage
  rateDivs : ℕ → UInt32
  presets : ℕ → Preset

/-- The array of a buffer as it is, with `past` behind it. -/
def upToEnd (mem past : Storage) : Storage :=
  fun i => if i < MAX_SAMPLE_BUFFER_SIZE then mem i else past i

def SampleBuffer.withPast (past : Storage) (b : SampleBuffer) : SampleBuffer :=
  b.withStorage (upToEnd b.mBuffer past)

/-- The device with other memory behind all its arrays. -/
def Device.withPast (m : Past) (d : Device) : Device :=
  { d with
    In := d.In.withPast m.In
    Out := d.Out.withPast m.Out
    Generator := d.Generator.withPast m.Generator
    pastRateDivs := m.rateDivs
    pastPresets := m.presets }

section Storage

variable {mem past : Storage} {off n : ℕ}

theorem readBytes_upToEnd (h : off + n ≤ 2 * MAX_SAMPLE_BUFFER_SIZE) :
    readBytes (upToEnd mem past) off n = readBytes mem off n := by
  apply List.map_congr_left
  intro i hi
  rw [List.mem_range] at hi
  have hin : (off + i) / 2 < MAX_SAMPLE_BUFFER_SIZE := by omega
  simp only [byteAt, upToEnd, if_pos hin]

theorem storeBytes_upToEnd {bs : List UInt8} (h : off + bs.length ≤ 2 * MAX_SAMPLE_BUFFER_SIZE) :
    storeBytes (upToEnd mem past) off bs = upToEnd (storeBytes mem off bs) past := by
  funext i
  by_cases hi : i < MAX_SAMPLE_BUFFER_SIZE
  · have hbyte : ∀ j, j / 2 = i → byteAt (upToEnd mem past) j = byteAt mem j := by
      rintro j rfl
      rw [byteAt, byteAt, upToEnd, if_pos hi]
    have hin : ∀ mem : Storage, upToEnd mem past i = mem i := fun _ => if_pos hi
    rw [hin]
    simp only [storeBytes, hbyte (2 * i) (by omega), hbyte (2 * i + 1) (by omega), hin]
  · have hout : ¬ (off ≤ 2 * i + 1 ∧ 2 * i < off + bs.length) := by omega
    simp only [storeBytes, upToEnd, if_neg hi, if_neg hout]

theorem clear_withPast (b : SampleBuffer) : (b.withPast past).clear = b.clear.withPast past := by
  refine congrArg b.withStorage (funext fun i => ?_)
  have hsize := b.size_le
  by_cases hi : i < MAX_SAMPLE_BUFFER_SIZE
  · simp only [SampleBuffer.withPast, SampleBuffer.withStorage, SampleBuffer.clear, upToEnd, if_pos hi]
  · have hpast : ¬ i < b.mSize := by omega
    simp only [SampleBuffer.withPast, SampleBuffer.withStorage, SampleBuffer.clear, upToEnd, if_neg hi,
      if_neg hpast]

/-- A transfer into the buffer from byte `off` on. -/
theorem store_withPast {b : SampleBuffer} {bs : List UInt8}
    (h : off + bs.length ≤ 2 * MAX_SAMPLE_BUFFER_SIZE) :
    (b.withPast past).withStorage (storeBytes (b.withPast past).mBuffer off bs) =
      (b.withStorage (storeBytes b.mBuffer off bs)).withPast past :=
  congrArg b.withStorage (storeBytes_upToEnd h)

end Storage

/-! ### Handlers -/

section Handlers

variable {m : Past} {d : Device}

theorem ignores_assert {c : Device → Bool} {e : Error} (h : c (d.withPast m) = c d) :
    Ignores (Device.withPast m) (EM.assert c e) d := by
  apply ignores_act
  rw [h]
  split
  · rfl
  · rfl

theorem ignores_read (n : ℕ) : Ignores (Device.withPast m) (USBSerial.read n) d :=
  ignores_guarded rfl rfl rfl

theorem ignores_write {bytes : Device → List UInt8} (h : bytes (d.withPast m) = bytes d) :
    Ignores (Device.withPast m) (USBSerial.write bytes) d :=
  ignores_guarded (by rw [h]; rfl) (by rw [h]) rfl

theorem ignores_awaitAck : Ignores (Device.withPast m) USBSerial.awaitAck d :=
  ignores_await rfl rfl

theorem bytesize_le (b : SampleBuffer) : b.bytesize ≤ 2 * MAX_SAMPLE_BUFFER_SIZE := by
  have hsize := b.size_le
  rw [SampleBuffer.bytesize]
  omega

/-- The whole of a buffer is sent. -/
theorem ignores_sendBuffer {buffer : Device → SampleBuffer} (past : Storage)
    (h : buffer (d.withPast m) = (buffer d).withPast past) :
    Ignores (Device.withPast m)
      (USBSerial.write fun d => readBytes (buffer d).mBuffer 0 (buffer d).bytesize) d := by
  apply ignores_write
  rw [h]
  exact readBytes_upToEnd (by rw [Nat.zero_add]; exact bytesize_le _)

theorem read_length {n : ℕ} {t : Device} {bytes : List UInt8}
    (h : (USBSerial.read n).run d = .ok bytes t) : bytes.length ≤ n := by
  rw [run_read] at h
  split at h
  · cases h
    exact List.length_take_le _ _
  · simp at h

theorem ignores_writeADCBuffer : Ignores (Device.withPast m) writeADCBuffer d := by
  apply ignores_gets_bind rfl
  apply (ignores_read _).bind
  intro bytes t hread
  have hfits : 0 + bytes.length ≤ 2 * MAX_SAMPLE_BUFFER_SIZE := by
    have hlen := read_length hread
    have hsize := bytesize_le d.In
    omega
  apply ignores_modify
  exact congrArg (fun b => { t.withPast m with In := b })
    (store_withPast (b := t.In) hfits)

theorem ignores_setBufferSize : Ignores (Device.withPast m) setBufferSize d := by
  refine Ignores.bind (ignores_assert rfl) fun idle _ _ => ?_
  split
  · refine (ignores_read 2).bind fun bytes _ _ => Ignores.bind (ignores_assert rfl) fun ok _ _ => ?_
    split
    · refine Ignores.bind (ignores_assert rfl) fun fits _ _ => ?_
      split
      · exact ignores_modify_bind rfl (ignores_modify rfl)
      · exact ignores_done _
    · exact ignores_done _
  · exact ignores_done _

theorem ignores_sigGenWantsMore : Ignores (Device.withPast m) DAC.sigGenWantsMore d := by
  refine ignores_gets_bind rfl ?_
  split
  · exact ignores_gets_bind rfl (ignores_modify_bind rfl (ignores_done _))
  · exact ignores_done _

/-- A transfer of at most `n` bytes into the generator. -/
theorem ignores_generatorRead {off n : ℕ} (h : off + n ≤ 2 * MAX_SAMPLE_BUFFER_SIZE) :
    Ignores (Device.withPast m) ((USBSerial.read n).bind fun bytes => Proc.modify fun d => { d with
      Generator := d.Generator.withStorage (storeBytes d.Generator.mBuffer off bytes) }) d := by
  apply (ignores_read n).bind
  intro bytes t hread
  have hfits : off + bytes.length ≤ 2 * MAX_SAMPLE_BUFFER_SIZE := by
    have hlen := read_length hread
    omega
  apply ignores_modify
  exact congrArg (fun b => { t.withPast m with Generator := b }) (store_withPast hfits)

theorem ignores_updateGenerator : Ignores (Device.withPast m) updateGenerator d := by
  refine (ignores_read 2).bind fun bytes _ _ => Ignores.bind (ignores_assert rfl) fun ok _ _ => ?_
  split
  swap
  · exact ignores_done _
  refine Ignores.bind (ignores_assert rfl) fun fits t _ => ?_
  split
  swap
  · exact ignores_done _
  refine ignores_gets_bind rfl ?_
  split
  · refine ignores_modify_bind rfl (ignores_gets_bind rfl (ignores_generatorRead ?_))
    rw [Nat.zero_add]
    exact bytesize_le _
  · refine ignores_sigGenWantsMore.bind fun more _ _ => ?_
    split
    · exact ignores_write rfl
    · -- Either half ends with the buffer at the latest.
      refine Ignores.bind (ignores_write rfl) fun _ t _ => ?_
      refine ignores_gets_bind rfl (ignores_gets_bind rfl (ignores_generatorRead ?_))
      have hsize := t.Generator.size_le
      simp only [SampleBuffer.bytesize, SampleBuffer.middata, SampleBuffer.data]
      split <;> omega

theorem ignores_loadSegments (fuel i : ℕ) (phdr : UInt32) (loaded : Bool) :
    Ignores (Device.withPast m) (ELFManager.loadSegments fuel i phdr loaded) d := by
  induction fuel generalizing i phdr loaded d with
  | zero => exact ignores_done _
  | succ fuel ih =>
    refine ignores_gets_bind rfl ?_
    split
    · exact ignores_act_bind rfl (ignores_gets_bind rfl (ih _ _ _))
    · exact ignores_done _

theorem ignores_loadFromInternalBuffer :
    Ignores (Device.withPast m) ELFManager.loadFromInternalBuffer d := by
  refine ignores_modify_bind rfl (ignores_gets_bind rfl ?_)
  split
  · refine ignores_gets_bind rfl ?_
    refine (ignores_loadSegments _ _ _ _).bind fun loaded _ _ => ?_
    split
    · exact ignores_modify_bind rfl (ignores_done _)
    · exact ignores_done _
  · exact ignores_done _

theorem ignores_loadAlgorithm : Ignores (Device.withPast m) loadAlgorithm d := by
  refine Ignores.bind (ignores_assert rfl) fun idle _ _ => ?_
  split
  · refine (ignores_read 2).bind fun bytes _ _ => Ignores.bind (ignores_assert rfl) fun ok _ _ => ?_
    split
    · refine Ignores.bind (ignores_assert rfl) fun fits _ _ => ?_
      split
      · refine (ignores_read _).bind fun payload _ _ => ignores_modify_bind rfl ?_
        exact ignores_loadFromInternalBuffer.bind fun success _ _ =>
          Ignores.bind (ignores_assert rfl) fun _ _ _ => ignores_done _
      · exact ignores_done _
    · exact ignores_done _
  · exact ignores_done _

theorem ignores_sclock_start : Ignores (Device.withPast m) SClock.start d := by
  refine ignores_act_bind rfl ?_
  split
  · exact ignores_gets_bind rfl (ignores_guarded rfl rfl rfl)
  · exact ignores_done _

theorem ignores_sclock_stop : Ignores (Device.withPast m) SClock.stop d := by
  refine ignores_act_bind rfl ?_
  split
  · exact ignores_modify rfl
  · exact ignores_done _

theorem ignores_dac_start (channel : Fin 2) (count : ℕ) :
    Ignores (Device.withPast m) (DAC.start channel count) d := by
  have hstart : ∀ t : Device, Ignores (Device.withPast m)
      ((dacStartConversion channel count).bind fun _ => SClock.start) t :=
    fun _ => Ignores.bind (ignores_guarded rfl rfl rfl) fun _ _ _ => ignores_sclock_start
  unfold DAC.start
  split
  · exact ignores_modify_bind rfl (hstart _)
  · exact hstart d

theorem ignores_dac_stop (channel : Fin 2) : Ignores (Device.withPast m) (DAC.stop channel) d :=
  Ignores.bind (ignores_guarded rfl rfl rfl) fun _ _ _ => ignores_sclock_stop

theorem ignores_startConversion : Ignores (Device.withPast m) startConversion d := by
  refine Ignores.bind (ignores_assert rfl) fun idle t _ => ?_
  split
  · refine ignores_modify_bind rfl (ignores_modify_bind ?_ (ignores_gets_bind rfl ?_))
    · exact congrArg (fun b => { Device.withPast m { t with runStatus := .Running } with Out := b })
        (clear_withPast t.Out)
    refine Ignores.bind ?_ fun _ _ _ => ignores_gets_bind rfl (ignores_dac_start _ _)
    refine ignores_modify_bind rfl (ignores_modify_bind rfl (ignores_modify_bind rfl ?_))
    exact Ignores.bind (ignores_guarded rfl rfl rfl) fun _ _ _ => ignores_sclock_start
  · exact ignores_done _

theorem ignores_stopConversion : Ignores (Device.withPast m) stopConversion d := by
  refine Ignores.bind (ignores_assert rfl) fun running _ _ => ?_
  split
  · refine ((ignores_dac_stop 0).bind fun _ _ _ => ignores_sclock_stop.bind fun _ _ _ => ?_).bind
      fun _ _ _ => ignores_modify rfl
    refine Ignores.bind (ignores_guarded rfl rfl rfl) fun _ _ _ => ?_
    exact ignores_modify_bind rfl (ignores_modify_bind rfl (ignores_modify rfl))
  · exact ignores_done _

/-- The chunks from a sample of the first half on: they end with the buffer at the latest. -/
theorem ignores_sendChunks {buffer : Device → SampleBuffer} {past : Storage}
    (hb : ∀ d : Device, buffer (d.withPast m) = (buffer d).withPast past) (samps total offset : ℕ)
    (h : 2 * samps + offset + total ≤ 2 * MAX_SAMPLE_BUFFER_SIZE) :
    Ignores (Device.withPast m) (sendChunks buffer samps total offset) d := by
  have hwrite : ∀ n t, n ≤ total → Ignores (Device.withPast m)
      (USBSerial.write fun d => readBytes (buffer d).mBuffer (2 * samps + offset) n) t := by
    intro n t hn
    apply ignores_write
    rw [hb]
    exact readBytes_upToEnd (by omega)
  induction total using Nat.strong_induction_on generalizing offset d with
  | _ total ih =>
    rw [sendChunks]
    split
    · rename_i hmore
      refine (hwrite 512 d hmore.le).bind fun _ _ _ => ignores_awaitAck.bind fun _ t _ => ?_
      refine ih _ (by omega) _ (by omega) fun n t hn => ?_
      apply ignores_write
      rw [hb]
      exact readBytes_upToEnd (by omega)
    · exact (hwrite total d le_rfl).bind fun _ _ _ => ignores_awaitAck

/-- The mark is at most half an array from the start. -/
def SampleBuffer.MarkIn (b : SampleBuffer) : Prop :=
  ∀ samps, b.mModified = some samps → 2 * samps ≤ MAX_SAMPLE_BUFFER_SIZE

theorem ignores_sendModified {buffer : Device → SampleBuffer}
    {setBuffer : SampleBuffer → Device → Device} (past : Storage)
    (hb : ∀ d : Device, buffer (d.withPast m) = (buffer d).withPast past)
    (hset : ∀ b (d : Device), setBuffer (b.withPast past) (d.withPast m) = (setBuffer b d).withPast m)
    (h : (buffer d).MarkIn) : Ignores (Device.withPast m) (sendModified buffer setBuffer) d := by
  refine ignores_act_bind ?_ ?_
  · rw [hb, ← hset]
    rfl
  cases hm : (buffer d).mModified with
  | none =>
    simp only [SampleBuffer.modified, hm]
    exact ignores_write rfl
  | some samps =>
    simp only [SampleBuffer.modified, hm]
    refine ignores_gets_bind (by rw [hb]; rfl) ?_
    refine Ignores.bind (ignores_write rfl) fun _ t _ => ignores_gets_bind (by rw [hb]; rfl) ?_
    apply ignores_sendChunks hb
    have hmark := h samps hm
    have hsize := bytesize_le (buffer t)
    rw [Nat.add_zero]
    omega

theorem ignores_readConversionResults (h : d.Out.MarkIn) :
    Ignores (Device.withPast m) readConversionResults d :=
  ignores_sendModified m.Out (fun _ => rfl) (fun _ _ => rfl) h

theorem ignores_readConversionInput (h : d.In.MarkIn) :
    Ignores (Device.withPast m) readConversionInput d :=
  ignores_sendModified m.In (fun _ => rfl) (fun _ _ => rfl) h

/-- Neither table is left for what lies behind it. -/
theorem ignores_setRate {r : ℕ} (hr : r < 6) :
    Ignores (Device.withPast m) ((SClock.setRate r).bind fun _ => ADC.setRate r) d := by
  have hdiv : ∀ t : Device, SClock.rateDiv (t.withPast m) r = SClock.rateDiv t r := fun t =>
    Option.some.inj ((rateDiv_of_lt _ hr).symm.trans (rateDiv_of_lt t hr))
  have hpreset : ∀ p p' : Preset, ADC.ratePresets.getD r p = ADC.ratePresets.getD r p' := fun p p' =>
    Option.some.inj ((ratePreset_of_lt p hr).symm.trans (ratePreset_of_lt p' hr))
  refine ignores_modify_bind ?_ (ignores_modify ?_)
  · rw [hdiv]
    rfl
  · rw [hpreset]
    rfl

theorem ignores_applyRate {bytes : List UInt8}
    (h : ∀ x, bytes.head? = some x → x = 0xFF ∨ x.toNat < 6) :
    Ignores (Device.withPast m) (applyRate bytes) d := by
  refine Ignores.bind (ignores_assert rfl) fun ok _ _ => ?_
  split
  swap
  · exact ignores_done _
  dsimp only
  split
  · exact ignores_gets_bind rfl (ignores_write rfl)
  · rename_i hset
    apply ignores_setRate
    cases bytes with
    | nil => decide
    | cons x rest => exact (h x rfl).resolve_left hset

theorem ignores_sampleRate (h : ∀ x, d.input.head? = some x → x = 0xFF ∨ x.toNat < 6) :
    Ignores (Device.withPast m) sampleRate d := by
  rw [sampleRate_eq]
  apply (ignores_read 1).bind
  intro bytes t hread
  apply ignores_applyRate
  rw [run_read, if_pos Nat.one_pos] at hread
  cases hread
  intro x hx
  apply h x
  rwa [List.head?_take, if_neg Nat.one_ne_zero] at hx

/-- The marks of both buffers. -/
def MarksIn (d : Device) : Prop := d.In.MarkIn ∧ d.Out.MarkIn

theorem ignores_dispatch {c : UInt8} (hmarks : MarksIn d)
    (hrate : c = 'r'.toUInt8 → ∀ x, d.input.head? = some x → x = 0xFF ∨ x.toNat < 6) :
    Ignores (Device.withPast m) (dispatch c) d := by
  refine dispatch_induction (P := fun p => Ignores (Device.withPast m) p d) c ?_ (ignores_done ())
  intro x hx hcx
  subst hcx
  simp only [commandTable, List.mem_cons, List.not_mem_nil, or_false] at hx
  rcases hx with rfl | rfl | rfl | rfl | rfl | rfl | rfl | rfl | rfl | rfl | rfl | rfl | rfl | rfl |
    rfl | rfl | rfl | rfl | rfl
  · exact ignores_writeADCBuffer
  · exact ignores_setBufferSize
  · exact ignores_updateGenerator
  · exact ignores_loadAlgorithm
  · exact ignores_gets_bind rfl (ignores_act_bind rfl (ignores_write rfl))
  · refine Ignores.bind (ignores_assert rfl) fun running _ _ => ?_
    split
    · exact ignores_modify rfl
    · exact ignores_done _
  · exact ignores_startConversion
  · exact ignores_stopConversion
  · exact ignores_gets_bind rfl (ignores_dac_start 1 _)
  · exact ignores_sendBuffer m.In rfl
  · exact ignores_sendBuffer m.Out rfl
  · exact ignores_modify rfl
  · exact ignores_write rfl
  · exact ignores_write rfl
  · exact ignores_sampleRate (hrate rfl)
  · exact ignores_readConversionResults hmarks.2
  · exact ignores_readConversionInput hmarks.1
  · exact ignores_done _
  · exact ignores_dac_stop 1

end Handlers

/-! ### Passes -/

/-- A rate the tables have, or the request for the present one. -/
def KnownRate (x : UInt8) : Prop := x = 0xFF ∨ x.toNat < 6

/-- A pass of the loop from `d` reaches into no array from behind its end, and an 'E'
changes nothing outside the file buffer but what the loader then writes. -/
structure InArrays (d : Device) : Prop where
  ignores : ∀ m, Ignores (Device.withPast m) CommunicationManager.threadComm d
  upload : ∀ rest d', d.input = 'E'.toUInt8 :: rest →
    CommunicationManager.threadComm.run d = .ok () d' →
    ∀ a, ¬ Window.Covers ⟨d.mFileBuffer, MAX_ELF_FILE_SIZE⟩ a →
      (∀ w ∈ ELFManager.writes d.mFileBuffer
        (ELFManager.uploadOver d.mem (received d 'E'.toUInt8 rest)), ¬ w.Covers a) →
      d'.mem a = d.mem a

section Pass

variable {m : Past} {d d' : Device}

theorem ignores_threadComm (hmarks : MarksIn d)
    (hrate : ∀ x, rateParam d .comm = some x → KnownRate x) :
    Ignores (Device.withPast m) CommunicationManager.threadComm d := by
  have hpast : (d.withPast m).input = d.input := rfl
  rw [Ignores, threadComm_run, threadComm_run, hpast]
  cases hin : d.input with
  | nil => rfl
  | cons c rest =>
    refine ignores_dispatch (d := received d c rest) hmarks ?_
    rintro rfl x hx
    exact hrate x ((rateParam_r hin).trans hx)

theorem input_of_rateParam {x : UInt8} (hx : rateParam d .comm = some x) :
    ∃ rest, d.input = 'r'.toUInt8 :: x :: rest := by
  rw [rateParam] at hx
  split at hx
  · rename_i hr
    obtain ⟨rest, hin⟩ := input_of_nextCommand hr
    rw [hin, List.tail_cons] at hx
    exact ⟨rest.tail, by rw [hin, List.cons_head?_tail hx]⟩
  · simp at hx

theorem pass_divider {x : UInt8} {rest : List UInt8} (hin : d.input = 'r'.toUInt8 :: x :: rest)
    (hx : x ≠ 0xFF) :
    (CommunicationManager.threadComm.run d).state.sclock.mDiv = SClock.rateDiv d x.toNat := by
  rw [threadComm_run, hin]
  change ((sampleRate.run (received d 'r'.toUInt8 (x :: rest))).state).sclock.mDiv = _
  rw [sampleRate_eq, run_read_bind, if_pos Nat.one_pos]
  simp only [applyRate, bind_eq, run_assert_bind, received, Device.logCall, List.take_succ_cons,
    List.take_zero, List.length_singleton, beq_self_eq_true, if_true, List.getD_cons_zero, if_neg hx,
    SClock.setRate, ADC.setRate, run_modify_bind, run_modify]
  rfl

theorem rateDiv_past (d : Device) {r : ℕ} (hr : ¬ r < 6) : SClock.rateDiv d r = d.pastRateDivs r := by
  have hlen : rateDivs.length ≤ r := not_lt.mp hr
  rw [SClock.rateDiv, List.getD_eq_default _ _ hlen]

/-- The divider a pass stores comes from behind the table for every other rate. -/
theorem knownRate_of_ignores (h : ∀ m, Ignores (Device.withPast m) CommunicationManager.threadComm d)
    {x : UInt8} (hx : rateParam d .comm = some x) : KnownRate x := by
  by_contra hne
  obtain ⟨hset, hbig⟩ : x ≠ 0xFF ∧ ¬ x.toNat < 6 := not_or.mp hne
  obtain ⟨rest, hin⟩ := input_of_rateParam hx
  -- Whatever the index finds behind the table would have to be what it finds in `d`.
  have hdiv : ∀ v : UInt32, v = (CommunicationManager.threadComm.run d).state.sclock.mDiv := by
    intro v
    let m : Past := ⟨d.In.mBuffer, d.Out.mBuffer, d.Generator.mBuffer, fun _ => v, d.pastPresets⟩
    have hrun := congrArg Outcome.state (h m)
    rw [Outcome.state_map] at hrun
    calc v = SClock.rateDiv (d.withPast m) x.toNat := (rateDiv_past (d.withPast m) hbig).symm
      _ = (CommunicationManager.threadComm.run (d.withPast m)).state.sclock.mDiv :=
        (pass_divider (d := d.withPast m) hin hset).symm
      _ = (CommunicationManager.threadComm.run d).state.sclock.mDiv := by rw [hrun]; rfl
  exact absurd ((hdiv 0).trans (hdiv 1).symm) (by decide)

theorem store_frame {mem : Memory} {dst a : UInt32} {bytes : List UInt8} {n : ℕ}
    (hlen : bytes.length ≤ n) (ha : ¬ Window.Covers ⟨dst, n⟩ a) : mem.store dst bytes a = mem a := by
  rw [Window.Covers, not_lt] at ha
  exact List.getD_eq_default _ _ (hlen.trans ha)

/-- An upload changes the file buffer alone, and the loader what it writes. -/
theorem loadAlgorithm_frame {a : UInt32} (h : loadAlgorithm.run d = .ok () d')
    (ha : ¬ Window.Covers ⟨d.mFileBuffer, MAX_ELF_FILE_SIZE⟩ a)
    (hw : ∀ w ∈ ELFManager.writes d.mFileBuffer (ELFManager.uploadOver d.mem d), ¬ w.Covers a) :
    d'.mem a = d.mem a := by
  rw [loadAlgorithm_run] at h
  split at h
  swap
  · cases h
    rfl
  split at h
  swap
  · cases h
    rfl
  split at h
  swap
  · cases h
    rfl
  rename_i hfits
  rw [run_read_bind] at h
  split at h
  swap
  · simp at h
  rw [loadPayload, bind_eq, run_modify_bind, bind_eq] at h
  obtain ⟨success, t, hload, hassert⟩ := run_bind_ok.mp h
  have hmem : d'.mem = t.mem := by
    rw [bind_eq, run_assert_bind] at hassert
    split at hassert
    · cases hassert
      rfl
    · cases hassert
      rfl
  rw [hmem, ELFManager.load_frame hload hw]
  exact store_frame ((ELFManager.upload_length_le d).trans hfits.le) ha

/-- A pass stays inside the arrays exactly if the rate it sets is known. -/
theorem inArrays_iff (hmarks : MarksIn d) :
    InArrays d ↔ ∀ x, rateParam d .comm = some x → KnownRate x := by
  constructor
  · intro h x hx
    exact knownRate_of_ignores h.ignores hx
  · intro hrate
    refine ⟨fun m => ignores_threadComm hmarks hrate, fun rest d' hin hpass a ha hw => ?_⟩
    rw [threadComm_run, hin] at hpass
    exact loadAlgorithm_frame (d := received d _ rest) hpass ha hw

end Pass

/-! ### Runs -/

section Runs

variable {b : Board} {tr : List (Device × CommAct)} {d d' : Device} {a : CommAct}

theorem MarkIn.of_marked {b b' : SampleBuffer} (h : b.MarkIn) (hm : b.Marked b') : b'.MarkIn := by
  have hsize := b.size_le
  intro samps hs
  rcases hm with hm | hm | hm
  · exact h samps (hm ▸ hs)
  · rw [hm] at hs
    obtain rfl := Option.some.inj hs
    exact Nat.zero_le _
  · rw [hm] at hs
    obtain rfl := Option.some.inj hs
    simp only [SampleBuffer.middata, SampleBuffer.data]
    omega

theorem markIn_of_none {b : SampleBuffer} (h : b.mModified = none) : b.MarkIn := by
  intro samps hs
  rw [h] at hs
  simp at hs

/-- Handlers take marks but set none. -/
theorem marksIn_step {c : UInt8} (d d' : Device) (h : HandlerStep c d d') (hd : MarksIn d) :
    MarksIn d' := by
  obtain ⟨hin, hout⟩ := hd
  cases h with
  | outMark => exact ⟨hin, markIn_of_none rfl⟩
  | inMark => exact ⟨markIn_of_none rfl, hout⟩
  | _ => exact ⟨hin, hout⟩

theorem MarksIn.step (hd : MarksIn d) (h : HostStep d a d') : MarksIn d' := by
  cases a with
  | host bytes =>
    obtain rfl := h
    exact hd
  | env => exact ⟨MarkIn.of_marked hd.1 h.inMark, MarkIn.of_marked hd.2 h.outMark⟩
  | comm =>
    exact rel_of_pass (R := fun s s' => MarksIn s → MarksIn s') (fun _ h => h)
      (fun _ _ _ h k hd => k (h hd)) (fun _ _ => marksIn_step) h hd

theorem marksIn_powerUp (b : Board) : MarksIn (powerUp b) := ⟨markIn_of_none rfl, markIn_of_none rfl⟩

/-- Over a whole run and the pass after it: every pass stays inside the arrays exactly if
every rate that is set is known. -/
theorem accesses_in_range_iff (h : HostRun b tr d) :
    (∀ p ∈ tr ++ [(d, .comm)], p.2 = .comm → InArrays p.1) ↔ KnownRates (tr ++ [(d, .comm)]) := by
  have hmarks : ∀ p ∈ tr ++ [(d, CommAct.comm)], MarksIn p.1 := by
    have hstep : ∀ (s : Device) (a : CommAct) (s' : Device), MarksIn s → HostStep s a s' → MarksIn s' :=
      fun _ _ _ hd hs => hd.step hs
    intro p hp
    rcases List.mem_append.mp hp with hp | hp
    · exact h.invariant_mem (marksIn_powerUp b) hstep p hp
    · rw [List.mem_singleton.mp hp]
      exact h.invariant (I := MarksIn) (marksIn_powerUp b) hstep
  refine forall₂_congr fun p hp => ?_
  obtain ⟨s, a⟩ := p
  cases a with
  | comm => exact (forall_prop_of_true rfl).trans (inArrays_iff (hmarks _ hp))
  | _ => simp [rateParam]

end Runs

/-- The last rate of the tables. -/
theorem accesses_in_range_iff_last_rate :
    ∃ tr d, HostRun default tr d ∧ tr.map Prod.snd = [.host ['r'.toUInt8, 5]] ∧
      ((∀ p ∈ tr ++ [(d, .comm)], p.2 = .comm → InArrays p.1) ↔
        KnownRates (tr ++ [(d, .comm)])) ∧ KnownRates (tr ++ [(d, .comm)]) := by
  have hhost : HostStep (powerUp default) (.host ['r'.toUInt8, 5]) _ := rfl
  have hr := Run.nil.snoc hhost
  refine ⟨_, _, hr, rfl, accesses_in_range_iff hr, ?_⟩
  refine knownRates_snoc.mpr ⟨knownRates_snoc.mpr ⟨knownRates_nil, ?_⟩, ?_⟩
  · rintro x ⟨⟩
  · rintro x ⟨⟩
    decide

/-- The first that is not: both tables are read behind their ends. -/
theorem accesses_out_of_range :
    ∃ tr d, HostRun default tr d ∧ tr.map Prod.snd = [.host ['r'.toUInt8, 6]] ∧
      (CommunicationManager.threadComm.run d).state.trace =
        [.read 1, .command 'r'.toUInt8, .read 1, .rateLookup 6, .presetLookup 6] ∧
      rateDivs.length = 6 ∧ ADC.ratePresets.length = 6 ∧ ¬ InArrays d := by
  have hhost : HostStep (powerUp default) (.host ['r'.toUInt8, 6]) _ := rfl
  refine ⟨_, _, Run.nil.snoc hhost, rfl, by decide +kernel, rfl, rfl, fun h => ?_⟩
  have hrate := knownRate_of_ignores h.ignores (x := 6) rfl
  exact absurd hrate (by unfold KnownRate; decide)

end Stmdsp
