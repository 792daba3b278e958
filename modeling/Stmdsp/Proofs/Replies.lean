import Stmdsp.Lib.Chunks
import Stmdsp.Proofs.Starts

/-! The bulk replies of 's' and 't' as the host sees them: a header with the number of
samples, the half in chunks of 512 bytes, and one acknowledgement a chunk. -/

namespace Stmdsp

open Proc

/-! ### Bytes of a buffer -/

@[simp] theorem readBytes_length (mem : Storage) (off n : ℕ) : (readBytes mem off n).length = n := by
  simp [readBytes]

theorem readBytes_take (mem : Storage) (off : ℕ) {m n : ℕ} (h : m ≤ n) :
    (readBytes mem off n).take m = readBytes mem off m := by
  rw [readBytes, ← List.map_take, List.take_range, Nat.min_eq_left h, readBytes]

theorem readBytes_drop (mem : Storage) (off m n : ℕ) :
    (readBytes mem off n).drop m = readBytes mem (off + m) (n - m) := by
  refine List.ext_getElem (by simp) fun i _ _ => ?_
  simp [readBytes, Nat.add_assoc]

/-- The two bytes of a bulk reply's header. -/
def header (n : ℕ) : List UInt8 := [(n % 256).toUInt8, (n / 256 % 256).toUInt8]

/-- The decoder of 'B' undoes it. -/
theorem param16_header {n : ℕ} (h : n < 65536) : param16 (header n) = n := by
  have hlo : (n % 256).toUInt8.toNat = n % 256 :=
    UInt8.toNat_ofNat_of_lt' (Nat.mod_lt _ (by decide))
  have hhi : (n / 256 % 256).toUInt8.toNat = n / 256 % 256 :=
    UInt8.toNat_ofNat_of_lt' (Nat.mod_lt _ (by decide))
  simp only [param16, header, List.getD_cons_zero, List.getD_cons_succ, hlo, hhi]
  omega

/-! ### The chunk loop -/

/-- What the loop does with a list of chunks: each is written and acknowledged. -/
def exchange (cs : List (List UInt8)) : List Call := cs.flatMap fun c => [.write c, .read 1]

/-- The device after that many acknowledged chunks. -/
def Device.exchanged (cs : List (List UInt8)) (d : Device) : Device :=
  { d with trace := d.trace ++ exchange cs, input := d.input.drop cs.length }

/-- The chunks of `total` bytes from byte `off` on. -/
def bulkChunks (mem : Storage) (off total : ℕ) : List (List UInt8) :=
  chunks 512 (readBytes mem off total)

theorem bulkChunks_of_lt {mem : Storage} {off total : ℕ} (h : 512 < total) :
    bulkChunks mem off total =
      readBytes mem off 512 :: bulkChunks mem (off + 512) (total - 512) := by
  rw [bulkChunks, chunks_of_lt (by decide) (by simpa), readBytes_take _ _ h.le, readBytes_drop]
  rfl

theorem bulkChunks_of_le {mem : Storage} {off total : ℕ} (h : total ≤ 512) :
    bulkChunks mem off total = [readBytes mem off total] :=
  chunks_of_le (by simpa)

/-- Neither writes nor acknowledgements change the buffer. -/
structure Inert (buffer : Device → SampleBuffer) : Prop where
  eq : ∀ d input trace, buffer { d with input := input, trace := trace } = buffer d

theorem run_awaitAck (d : Device) (f : Unit → Fw Unit) :
    (USBSerial.awaitAck.bind f).run d =
      if d.input.isEmpty then .blocked d else (f ()).run (d.afterRead 1) := by
  change (if !d.input.isEmpty then (f ()).run (d.afterRead 1) else .blocked d) = _
  cases d.input.isEmpty <;> rfl

/-- The device after one chunk. -/
def Device.acknowledged (c : List UInt8) (d : Device) : Device :=
  (d.logCall (.write c)).afterRead 1

theorem exchanged_cons (c : List UInt8) (cs : List (List UInt8)) (d : Device) :
    d.exchanged (c :: cs) = (d.acknowledged c).exchanged cs := by
  simp [Device.exchanged, Device.acknowledged, Device.afterRead, Device.logCall, exchange]

theorem Inert.acknowledged {buffer : Device → SampleBuffer} (hb : Inert buffer) (c : List UInt8)
    (d : Device) : buffer (d.acknowledged c) = buffer d :=
  hb.eq d (d.input.drop 1) (d.acknowledged c).trace

theorem Inert.logCall {buffer : Device → SampleBuffer} (hb : Inert buffer) (c : Call)
    (d : Device) : buffer (d.logCall c) = buffer d :=
  hb.eq d d.input (d.logCall c).trace

theorem Inert.exchanged {buffer : Device → SampleBuffer} (hb : Inert buffer)
    (cs : List (List UInt8)) (d : Device) : buffer (d.exchanged cs) = buffer d :=
  hb.eq d (d.exchanged cs).input (d.exchanged cs).trace

/-- A chunk is written and acknowledged. -/
theorem run_chunk (bytes : Device → List UInt8) {f : Unit → Fw Unit} {d d' : Device}
    (h : bytes d ≠ []) :
    ((USBSerial.write bytes).bind fun _ => USBSerial.awaitAck.bind f).run d = .ok () d' ↔
      d.input ≠ [] ∧ (f ()).run (d.acknowledged (bytes d)) = .ok () d' := by
  rw [run_write_bind, if_neg (by simpa using h), run_awaitAck]
  cases hin : d.input with
  | nil => simp [Device.logCall, hin]
  | cons x rest => simp [Device.logCall, hin, Device.acknowledged]

theorem awaitAck_bind_done : USBSerial.awaitAck.bind Proc.done = USBSerial.awaitAck := rfl

theorem sendChunks_ok {buffer : Device → SampleBuffer} (hb : Inert buffer) (samps : ℕ)
    {total : ℕ} (offset : ℕ) (hpos : 0 < total) (d : Device) {d' : Device} :
    (sendChunks buffer samps total offset).run d = .ok () d' ↔
      (bulkChunks (buffer d).mBuffer (2 * samps + offset) total).length ≤ d.input.length ∧
        d' = d.exchanged (bulkChunks (buffer d).mBuffer (2 * samps + offset) total) := by
  induction total using Nat.strong_induction_on generalizing offset d with
  | _ total ih =>
    have hfull : ∀ n, 0 < n → readBytes (buffer d).mBuffer (2 * samps + offset) n ≠ [] := by
      intro n hn h
      have := congrArg List.length h
      simp at this
      omega
    rw [sendChunks]
    split
    · rename_i hmore
      simp only [bind_eq]
      rw [run_chunk (fun d => readBytes (buffer d).mBuffer (2 * samps + offset) 512)
        (hfull 512 (by decide)), ih _ (by omega) _ (by omega), bulkChunks_of_lt hmore,
        exchanged_cons, hb.acknowledged, ← Nat.add_assoc]
      cases hin : d.input with
      | nil => simp
      | cons x rest => simp [Device.acknowledged, Device.logCall, hin]
    · rename_i hlast
      simp only [bind_eq]
      rw [← awaitAck_bind_done, run_chunk (fun d => readBytes (buffer d).mBuffer (2 * samps + offset) total)
        (hfull total hpos), bulkChunks_of_le (by omega),
        exchanged_cons]
      cases hin : d.input with
      | nil => simp
      | cons x rest => simp [Device.exchanged, exchange, eq_comm]

theorem sendChunks_zero (buffer : Device → SampleBuffer) (samps offset : ℕ) (d : Device) :
    (sendChunks buffer samps 0 offset).run d = .halted (d.logCall (.write [])) := by
  rw [sendChunks, if_neg (by omega), bind_eq, run_write_bind]
  rfl

/-! ### The whole reply -/

/-- A buffer of the device, with what replaces it. -/
structure Buffer (buffer : Device → SampleBuffer) (setBuffer : SampleBuffer → Device → Device) :
    Prop extends Inert buffer where
  get : ∀ b d, buffer (setBuffer b d) = b
  input : ∀ b d, (setBuffer b d).input = d.input
  trace : ∀ b d, (setBuffer b d).trace = d.trace

theorem buffer_Out : Buffer (·.Out) fun b d => { d with Out := b } :=
  ⟨⟨fun _ _ _ => rfl⟩, fun _ _ => rfl, fun _ _ => rfl, fun _ _ => rfl⟩

theorem buffer_In : Buffer (·.In) fun b d => { d with In := b } :=
  ⟨⟨fun _ _ _ => rfl⟩, fun _ _ => rfl, fun _ _ => rfl, fun _ _ => rfl⟩

/-- The buffer without its mark. -/
def SampleBuffer.taken (b : SampleBuffer) : SampleBuffer := { b with mModified := none }

section Reply

variable {buffer : Device → SampleBuffer} {setBuffer : SampleBuffer → Device → Device}
  {d t : Device}

theorem sendModified_none (buffer : Device → SampleBuffer)
    (setBuffer : SampleBuffer → Device → Device) (hm : (buffer d).mModified = none) :
    (sendModified buffer setBuffer).run d =
      .ok () ((setBuffer (buffer d).taken d).logCall (.write [0, 0])) := by
  simp only [sendModified, bind_eq, run_act_bind, SampleBuffer.modified, hm, run_write]
  rfl

/-- The bytes of the half that starts at sample `m`, in chunks. -/
def SampleBuffer.halfChunks (b : SampleBuffer) (m : ℕ) : List (List UInt8) :=
  bulkChunks b.mBuffer (2 * m) b.mSize

/-- With a mark, the header is followed by the chunks of a half. -/
theorem sendModified_run (hb : Buffer buffer setBuffer) {m : ℕ}
    (hm : (buffer d).mModified = some m) :
    (sendModified buffer setBuffer).run d =
      (sendChunks buffer m (buffer d).mSize 0).run
        ((setBuffer (buffer d).taken d).logCall (.write (header ((buffer d).mSize / 2)))) := by
  have hget : buffer (setBuffer { buffer d with mModified := none } d) = (buffer d).taken := hb.get _ _
  have hsize : (buffer ((setBuffer (buffer d).taken d).logCall
      (.write (header ((buffer d).mSize / 2))))).bytesize / 2 = (buffer d).mSize := by
    rw [hb.logCall, hb.get, SampleBuffer.bytesize, SampleBuffer.taken,
      Nat.mul_div_cancel _ Nat.two_pos]
  simp only [sendModified, bind_eq, run_act_bind, SampleBuffer.modified, hm, run_gets_bind,
    run_write_bind, hget, List.isEmpty_cons, Bool.false_eq_true, if_false]
  exact congrArg (fun total => (sendChunks buffer m total 0).run
    ((setBuffer (buffer d).taken d).logCall (.write (header ((buffer d).mSize / 2))))) hsize

theorem sendModified_some (hb : Buffer buffer setBuffer) {m : ℕ}
    (hm : (buffer d).mModified = some m) :
    (sendModified buffer setBuffer).run d = .ok () t ↔
      0 < (buffer d).mSize ∧ ((buffer d).halfChunks m).length ≤ d.input.length ∧
        t = ((setBuffer (buffer d).taken d).logCall
          (.write (header ((buffer d).mSize / 2)))).exchanged ((buffer d).halfChunks m) := by
  rw [sendModified_run hb hm]
  rcases Nat.eq_zero_or_pos (buffer d).mSize with hzero | hpos
  · rw [hzero, sendChunks_zero]
    simp
  · rw [sendChunks_ok hb.toInert m 0 hpos, hb.logCall, hb.get, and_iff_right hpos]
    simp only [Device.logCall, hb.input]
    rfl

end Reply

end Stmdsp
