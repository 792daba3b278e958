import Stmdsp.Proofs.Clock
import Stmdsp.Proofs.Handlers

/-! Host frames and what the command loop takes off the stream for each: when a
handler consumes its whole frame, and that the loop then dispatches the heads of
the frames and nothing else. -/

namespace Stmdsp

open Proc

/-- The commands without parameters or payload. -/
def singleCommands : List UInt8 :=
  ['I'.toUInt8, 'M'.toUInt8, 'R'.toUInt8, 'S'.toUInt8, 'W'.toUInt8, 'a'.toUInt8, 'd'.toUInt8,
   'e'.toUInt8, 'i'.toUInt8, 'm'.toUInt8, 'u'.toUInt8, 'w'.toUInt8]

/-- A command as the host sends it. -/
inductive Frame where
  | single (c : UInt8) (hc : c ∈ singleCommands)
  | setBufferSize (lo hi : UInt8)
  | sampleRate (x : UInt8)
  | loadAlgorithm (lo hi : UInt8) (payload : List UInt8)
  | updateGenerator (lo hi : UInt8) (payload : List UInt8)
  | writeADCBuffer (payload : List UInt8)

namespace Frame

def head : Frame → UInt8
  | single c _ => c
  | setBufferSize _ _ => 'B'.toUInt8
  | sampleRate _ => 'r'.toUInt8
  | loadAlgorithm _ _ _ => 'E'.toUInt8
  | updateGenerator _ _ _ => 'D'.toUInt8
  | writeADCBuffer _ => 'A'.toUInt8

def tail : Frame → List UInt8
  | single _ _ => []
  | setBufferSize lo hi => [lo, hi]
  | sampleRate x => [x]
  | loadAlgorithm lo hi payload => lo :: hi :: payload
  | updateGenerator lo hi payload => lo :: hi :: payload
  | writeADCBuffer payload => payload

def bytes (f : Frame) : List UInt8 := f.head :: f.tail

/-- The payload has the length its header or the device asks for. -/
def WellFormed (d : Device) : Frame → Prop
  | loadAlgorithm lo hi payload => 0 < param16 [lo, hi] ∧ payload.length = param16 [lo, hi]
  | updateGenerator lo hi payload =>
    0 < param16 [lo, hi] ∧ payload.length = 2 * param16 [lo, hi] ∧ DAC.isSigGenRunning d = false
  | writeADCBuffer payload => payload.length = d.In.bytesize
  | _ => True

/-- The handler gets past the guards that stand before its reads. -/
def InStep (d : Device) : Frame → Prop
  | setBufferSize _ _ => d.runStatus = .Idle
  | loadAlgorithm lo hi _ => d.runStatus = .Idle ∧ param16 [lo, hi] < MAX_ELF_FILE_SIZE
  | updateGenerator lo hi _ => param16 [lo, hi] ≤ MAX_SAMPLE_BUFFER_SIZE
  | _ => True

end Frame

/-! ### What each handler leaves on the stream -/

section Handlers

variable {d : Device} {lo hi : UInt8} {payload rest : List UInt8}

theorem input_of_host {p : Fw Unit} (h : Keeps SameHost p) : (p.run d).state.input = d.input :=
  (h.run SameHost.refl SameHost.trans d).input

theorem input_read_bind {n : ℕ} {f : List UInt8 → Fw Unit} (hf : ∀ bytes, Keeps SameHost (f bytes))
    (hn : 0 < n) : (((USBSerial.read n).bind f).run d).state.input = d.input.drop n := by
  rw [run_read_bind, if_pos hn, input_of_host (hf _)]
  rfl

theorem ne_of_append (pre rest : List UInt8) (hpre : pre ≠ []) : pre ++ rest ≠ rest := by
  simpa using hpre

theorem input_setBufferSize (hin : d.input = lo :: hi :: rest) :
    (setBufferSize.run d).state.input = rest ↔ d.runStatus = .Idle := by
  rw [setBufferSize_run]
  by_cases hidle : d.runStatus = .Idle
  · rw [if_pos hidle]
    refine iff_of_true ?_ hidle
    split
    · split <;> simp [hin]
    · simp [hin]
  · rw [if_neg hidle]
    refine iff_of_false ?_ hidle
    simpa [hin] using ne_of_append [lo, hi] rest (by simp)

theorem input_loadAlgorithm (hin : d.input = lo :: hi :: (payload ++ rest))
    (hpos : 0 < param16 [lo, hi]) (hlen : payload.length = param16 [lo, hi]) :
    (loadAlgorithm.run d).state.input = rest ↔
      d.runStatus = .Idle ∧ param16 [lo, hi] < MAX_ELF_FILE_SIZE := by
  have hne : payload ≠ [] := List.ne_nil_of_length_pos (by omega)
  have htwo : (d.input.take 2).length = 2 := by simp [hin]
  have hsize : d.sizeParam = param16 [lo, hi] := by simp [Device.sizeParam, hin]
  rw [loadAlgorithm_run, hsize]
  by_cases hidle : d.runStatus = .Idle
  · rw [if_pos hidle, if_pos htwo]
    by_cases hfits : param16 [lo, hi] < MAX_ELF_FILE_SIZE
    · rw [if_pos hfits, input_read_bind host_loadPayload hpos]
      exact iff_of_true (by simp [hin, ← hlen]) ⟨hidle, hfits⟩
    · rw [if_neg hfits]
      exact iff_of_false (by simpa [hin] using hne) fun h => hfits h.2
  · rw [if_neg hidle]
    refine iff_of_false ?_ fun h => hidle h.1
    simpa [hin] using ne_of_append (lo :: hi :: payload) rest (by simp)

theorem input_updateGenerator (hin : d.input = lo :: hi :: (payload ++ rest))
    (hpos : 0 < param16 [lo, hi]) (hlen : payload.length = 2 * param16 [lo, hi])
    (hgen : DAC.isSigGenRunning d = false) :
    (updateGenerator.run d).state.input = rest ↔ param16 [lo, hi] ≤ MAX_SAMPLE_BUFFER_SIZE := by
  have hne : payload ≠ [] := List.ne_nil_of_length_pos (by omega)
  have htwo : (d.input.take 2).length = 2 := by simp [hin]
  have hsize : d.sizeParam = param16 [lo, hi] := by simp [Device.sizeParam, hin]
  rw [updateGenerator_run, hsize, if_pos htwo]
  by_cases hfits : param16 [lo, hi] ≤ MAX_SAMPLE_BUFFER_SIZE
  · have hgen' : DAC.isSigGenRunning (d.afterRead 2) = false := hgen
    rw [if_pos hfits, generatorTransfer_stopped hgen' hpos hfits]
    exact iff_of_true (by simp [hin, ← hlen]) hfits
  · rw [if_neg hfits]
    exact iff_of_false (by simpa [hin] using hne) hfits

theorem input_writeADCBuffer (hin : d.input = payload ++ rest) (hlen : payload.length = d.In.bytesize) :
    (writeADCBuffer.run d).state.input = rest := by
  rw [writeADCBuffer_run]
  split
  · simp [hin, ← hlen]
  · have : payload = [] := List.length_eq_zero_iff.mp (by omega)
    simp [Device.logCall, hin, this]

theorem host_single {c : UInt8} (hc : c ∈ singleCommands) : Keeps SameHost (dispatch c) := by
  simp only [singleCommands, List.mem_cons, List.not_mem_nil, or_false] at hc
  rcases hc with rfl | rfl | rfl | rfl | rfl | rfl | rfl | rfl | rfl | rfl | rfl | rfl
  · exact host_readStatus
  · exact host_measureConversion
  · exact host_startConversion
  · exact host_stopConversion
  · exact host_startGenerator
  · exact host_write _
  · exact host_write _
  · exact keeps_modify fun _ => ⟨rfl⟩
  · exact host_write _
  · exact host_write _
  · trivial
  · exact host_dac_stop 1

end Handlers

/-! ### Frames and sequences of frames -/

/-- A pass of the loop on a stream that begins with a frame takes off exactly this
frame, exactly if the handler gets to its reads. -/
theorem frame_consumed_iff {d : Device} {f : Frame} {rest : List UInt8}
    (hin : d.input = f.bytes ++ rest) (hf : f.WellFormed d) :
    (CommunicationManager.threadComm.run d).state.input = rest ↔ f.InStep d := by
  rw [threadComm_run, hin]
  change ((dispatch f.head).run (received d f.head (f.tail ++ rest))).state.input = rest ↔ _
  cases f with
  | single c hc => exact iff_of_true (input_of_host (host_single hc)) trivial
  | setBufferSize lo hi => exact input_setBufferSize rfl
  | sampleRate x =>
    refine iff_of_true ?_ trivial
    rw [show dispatch (Frame.sampleRate x).head = _ from sampleRate_eq]
    exact input_read_bind host_applyRate Nat.one_pos
  | loadAlgorithm lo hi payload => exact input_loadAlgorithm rfl hf.1 hf.2
  | updateGenerator lo hi payload => exact input_updateGenerator rfl hf.1 hf.2.1 hf.2.2
  | writeADCBuffer payload => exact iff_of_true (input_writeADCBuffer rfl hf) trivial

/-- The command bytes the loop dispatches in `n` passes, and the state it ends in. -/
def dispatches : ℕ → Device → List UInt8 × Outcome Device Unit
  | 0, d => ([], .ok () d)
  | n + 1, d =>
    match nextCommand d, CommunicationManager.threadComm.run d with
    | some c, .ok _ d' => (c :: (dispatches n d').1, (dispatches n d').2)
    | some c, o => ([c], o)
    | none, _ => ([], .ok () d)

/-- The host sends these frames, each well-formed and in step in the state it is
dispatched in. -/
def Session : List Frame → Device → Prop
  | [], _ => True
  | f :: fs, d => f.WellFormed d ∧ f.InStep d ∧
      ∀ d', CommunicationManager.threadComm.run d = .ok () d' → Session fs d'

theorem session_dispatches {fs : List Frame} {d : Device} (hin : d.input = fs.flatMap Frame.bytes)
    (hs : Session fs d) {n : ℕ} (hn : fs.length ≤ n) :
    (dispatches n d).1 <+: fs.map Frame.head ∧
      ((dispatches n d).2.isOk = true →
        (dispatches n d).1 = fs.map Frame.head ∧ (dispatches n d).2.state.input = []) := by
  induction fs generalizing d n with
  | nil =>
    have hnone : nextCommand d = none := by simp [nextCommand, hin]
    cases n with
    | zero => simp [dispatches, hin]
    | succ n => simp [dispatches, hnone, hin]
  | cons f fs ih =>
    obtain ⟨hf, hstep, hs⟩ := hs
    rw [List.flatMap_cons] at hin
    have hnext : nextCommand d = some f.head := by simp [nextCommand, hin, Frame.bytes]
    have hrest := (frame_consumed_iff hin hf).mpr hstep
    cases n with
    | zero => simp at hn
    | succ n =>
      cases ho : CommunicationManager.threadComm.run d with
      | ok u d' =>
        rw [ho] at hrest
        obtain ⟨hpre, hok⟩ := ih (d := d') hrest (hs d' ho) (Nat.le_of_succ_le_succ hn)
        simp only [dispatches, hnext, ho, List.map_cons]
        refine ⟨(List.prefix_cons_inj f.head).mpr hpre, fun h => ?_⟩
        rw [(hok h).1]
        exact ⟨rfl, (hok h).2⟩
      | halted d' => simp [dispatches, hnext, ho, Outcome.isOk]
      | blocked d' => simp [dispatches, hnext, ho, Outcome.isOk]

/-- In every state and for every frame the loop consumes the frame exactly if the
frame is in step there; and for a session of such frames it dispatches their heads,
all of them unless a driver check halts it on the way. -/
theorem framing_iff (d : Device) :
    (∀ (f : Frame) (rest : List UInt8), d.input = f.bytes ++ rest → f.WellFormed d →
      ((CommunicationManager.threadComm.run d).state.input = rest ↔ f.InStep d)) ∧
    ∀ (fs : List Frame) (n : ℕ), d.input = fs.flatMap Frame.bytes → Session fs d →
      fs.length ≤ n →
      (dispatches n d).1 <+: fs.map Frame.head ∧
        ((dispatches n d).2.isOk = true → (dispatches n d).1 = fs.map Frame.head) := by
  refine ⟨fun _ _ hin hf => frame_consumed_iff hin hf, fun fs n hin hs hn => ?_⟩
  obtain ⟨hheads, hok⟩ := session_dispatches hin hs hn
  exact ⟨hheads, fun h => (hok h).1⟩

/-- A size command to the idle device, with its parameter bytes taken. -/
theorem framing_iff_idle :
    ((CommunicationManager.threadComm.run
        { powerUp default with input := ['B'.toUInt8, 4, 0] }).state.input = [] ↔
      (Frame.setBufferSize 4 0).InStep (powerUp default)) ∧
    (Frame.setBufferSize 4 0).InStep (powerUp default) :=
  ⟨(framing_iff { powerUp default with input := ['B'.toUInt8, 4, 0] }).1 (.setBufferSize 4 0) []
    rfl trivial, rfl⟩

/-- A size command during a conversion: its parameter bytes stay on the stream, and
the first of them, an 'S', is dispatched and stops the conversion. -/
theorem framing_lost :
    ∃ tr d, CommRun default tr d ∧
      tr.map Prod.snd = [.host ['R'.toUInt8, 'B'.toUInt8, 'S'.toUInt8, 0], .comm] ∧
      d.input = (Frame.setBufferSize 'S'.toUInt8 0).bytes ∧
      (CommunicationManager.threadComm.run d).state.input ≠ [] ∧
      (dispatches 3 d).1 = ['B'.toUInt8, 'S'.toUInt8, 0] ∧
      (dispatches 3 d).2.state.runStatus = .Idle := by
  obtain ⟨tr, hr, hacts⟩ := run_of_execActs (powerUp default)
    [.host ['R'.toUInt8, 'B'.toUInt8, 'S'.toUInt8, 0], .comm] rfl
  exact ⟨tr, _, hr, hacts, rfl, by decide +kernel, by decide +kernel, by decide +kernel⟩

end Stmdsp
