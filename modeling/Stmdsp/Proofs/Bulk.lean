import Stmdsp.Proofs.HandlerSteps
import Stmdsp.Proofs.Replies

/-! The codec of the bulk replies: what the host decodes is the half the mark points at,
and the header is the size it has set itself. -/

namespace Stmdsp

open Proc

/-! ### The size the host has set -/

/-- The next pass of the loop accepts a 'B'. -/
def AcceptsSize (d : Device) : Prop :=
  nextCommand d = some 'B'.toUInt8 ∧ d.runStatus = .Idle ∧ (d.input.tail.take 2).length = 2 ∧
    param16 (d.input.tail.take 2) * 2 ≤ MAX_SAMPLE_BUFFER_SIZE

instance acceptsSize_decidable (d : Device) : Decidable (AcceptsSize d) :=
  inferInstanceAs (Decidable (_ ∧ _))

/-- Its parameter. -/
def acceptedSize (d : Device) : CommAct → Option ℕ
  | .comm => if AcceptsSize d then some (param16 (d.input.tail.take 2)) else none
  | _ => none

/-- The last one of a run, or what the device starts with. -/
def lastSize (tr : List (Device × CommAct)) : ℕ :=
  (tr.filterMap fun p => acceptedSize p.1 p.2).getLast?.getD 4096

theorem lastSize_snoc (tr : List (Device × CommAct)) (d : Device) (a : CommAct) :
    lastSize (tr ++ [(d, a)]) = (acceptedSize d a).getD (lastSize tr) := by
  cases h : acceptedSize d a <;> simp [lastSize, h]

/-- Input and output buffer have twice this size. -/
def SizedFor (n : ℕ) (d : Device) : Prop := d.In.mSize = 2 * n ∧ d.Out.mSize = 2 * n

def ioSizes (d : Device) : ℕ × ℕ := (d.In.mSize, d.Out.mSize)

theorem SizedFor.of_eq {n : ℕ} {d d' : Device} (h : ioSizes d' = ioSizes d) (hd : SizedFor n d) :
    SizedFor n d' := by
  simp only [ioSizes, Prod.mk.injEq] at h
  exact ⟨h.1.trans hd.1, h.2.trans hd.2⟩

theorem ioSizes_step {c : UInt8} (hB : c ≠ 'B'.toUInt8) (d d' : Device) (h : HandlerStep c d d') :
    ioSizes d' = ioSizes d := by
  cases h with
  | inSize hc => exact absurd hc hB
  | outSize hc => exact absurd hc hB
  | _ => rfl

/-- The guards of `setBufferSize`, as the handler finds them. -/
def SizeGuards (d : Device) : Prop :=
  d.runStatus = .Idle ∧ (d.input.take 2).length = 2 ∧ d.sizeParam * 2 ≤ MAX_SAMPLE_BUFFER_SIZE

theorem acceptsSize_iff {d : Device} {rest : List UInt8} (hin : d.input = 'B'.toUInt8 :: rest) :
    AcceptsSize d ↔ SizeGuards (received d 'B'.toUInt8 rest) := by
  rw [AcceptsSize, nextCommand, hin]
  exact and_iff_right rfl

theorem setBufferSize_accepted {d d' : Device} (hg : SizeGuards d)
    (h : setBufferSize.run d = .ok () d') : SizedFor d.sizeParam d' := by
  obtain ⟨hidle, htwo, hfits⟩ := hg
  rw [setBufferSize_run, if_pos hidle, if_pos htwo, if_pos hfits] at h
  cases h
  rw [SizedFor, Nat.mul_comm 2]
  exact ⟨setSize_mSize hfits, setSize_mSize hfits⟩

theorem setBufferSize_rejected {d d' : Device} (hg : ¬ SizeGuards d)
    (h : setBufferSize.run d = .ok () d') : ∃ e input, d' =
      { d with em := e, input := input, trace := d'.trace } := by
  rw [setBufferSize_run] at h
  split at h
  · rename_i hidle
    split at h
    · rename_i htwo
      rw [if_neg fun hfits => hg ⟨hidle, htwo, hfits⟩] at h
      cases h
      exact ⟨_, _, rfl⟩
    · cases h
      exact ⟨_, _, rfl⟩
  · cases h
    exact ⟨_, _, rfl⟩

/-- Only an accepted 'B' changes the sizes. -/
theorem pass_sizes {d d' : Device} (hB : ¬ AcceptsSize d)
    (h : CommunicationManager.threadComm.run d = .ok () d') : ioSizes d' = ioSizes d := by
  by_cases hc : nextCommand d = some 'B'.toUInt8
  · obtain ⟨rest, hin⟩ := input_of_nextCommand hc
    rw [threadComm_run, hin] at h
    obtain ⟨em, input, heq⟩ :=
      setBufferSize_rejected (fun hg => hB ((acceptsSize_iff hin).mpr hg)) h
    rw [heq]
    rfl
  · refine view_of_pass (fun c hnext => ioSizes_step ?_) h
    rintro rfl
    exact hc hnext

theorem sizedFor_step {n : ℕ} {d d' : Device} {a : CommAct} (hd : SizedFor n d)
    (h : CommStep d a d') : SizedFor ((acceptedSize d a).getD n) d' := by
  cases a with
  | host bytes =>
    obtain rfl := h
    exact hd
  | env => exact hd.of_eq (by rw [ioSizes, h.inSize, h.outSize]; rfl)
  | comm =>
    by_cases hacc : AcceptsSize d
    · obtain ⟨rest, hin⟩ := input_of_nextCommand hacc.1
      rw [CommStep, threadComm_run, hin] at h
      rw [acceptedSize, if_pos hacc, hin, List.tail_cons, Option.getD_some]
      exact setBufferSize_accepted ((acceptsSize_iff hin).mp hacc) h
    · rw [acceptedSize, if_neg hacc]
      exact hd.of_eq (pass_sizes hacc h)

/-- The buffers have the size the host has set last. -/
theorem sizedFor_run {b : Board} {tr : List (Device × CommAct)} {d : Device} (h : CommRun b tr d) :
    SizedFor (lastSize tr) d := by
  induction h with
  | nil => exact ⟨rfl, rfl⟩
  | snoc _ hs ih =>
    rw [lastSize_snoc]
    exact sizedFor_step ih hs

/-! ### The two commands -/

/-- The commands with a bulk reply. -/
inductive Bulk where
  | results
  | input

namespace Bulk

def command : Bulk → UInt8
  | results => 's'.toUInt8
  | input => 't'.toUInt8

def buffer : Bulk → Device → SampleBuffer
  | results => (·.Out)
  | input => (·.In)

def setBuffer : Bulk → SampleBuffer → Device → Device
  | results => fun b d => { d with Out := b }
  | input => fun b d => { d with In := b }

theorem dispatch_command (r : Bulk) : dispatch r.command = sendModified r.buffer r.setBuffer := by
  cases r <;> rfl

theorem isBuffer (r : Bulk) : Buffer r.buffer r.setBuffer := by
  cases r
  · exact buffer_Out
  · exact buffer_In

theorem buffer_received (r : Bulk) (d : Device) (c : UInt8) (rest : List UInt8) :
    r.buffer (received d c rest) = r.buffer d :=
  r.isBuffer.eq d rest (received d c rest).trace

theorem mSize_eq {n : ℕ} {d : Device} (r : Bulk) (h : SizedFor n d) : (r.buffer d).mSize = 2 * n := by
  cases r
  · exact h.2
  · exact h.1

end Bulk

/-! ### Transfers that are interrupted -/

/-- What may come in between the steps of a transfer: anything that leaves the buffer alone. -/
structure Transfer (buffer : Device → SampleBuffer) (d d' : Device) : Prop where
  buffer : buffer d' = buffer d
  trace : d'.trace = d.trace

section Interrupted

variable {buffer : Device → SampleBuffer} {setBuffer : SampleBuffer → Device → Device} {d : Device}

/-- The calls made since `d`, with the buffer as it was. -/
def Sent (buffer : Device → SampleBuffer) (d : Device) (calls : List Call) (t : Device) : Prop :=
  buffer t = buffer d ∧ t.trace = d.trace ++ calls

theorem holds_write (hb : Inert buffer) (bytes : Device → List UInt8)
    (hbytes : ∀ t, buffer t = buffer d → bytes t = bytes d) :
    Holds (Transfer buffer) (fun _ => True) (fun _ => Sent buffer d [.write (bytes d)])
      (USBSerial.write bytes) d := by
  refine holds_guarded trivial (fun _ _ => trivial) fun t ht _ => ⟨trivial, ?_, ?_⟩
  · exact (hb.eq t t.input _).trans ht.buffer
  · simp only [Device.logCall, ht.trace, hbytes t ht.buffer]

theorem holds_awaitAck (hb : Inert buffer) :
    Holds (Transfer buffer) (fun _ => True) (fun _ => Sent buffer d [.read 1])
      USBSerial.awaitAck d := by
  refine ⟨trivial, fun t ht _ => ⟨trivial, ?_, ?_⟩⟩
  · exact (hb.eq t (t.input.drop 1) _).trans ht.buffer
  · simp only [Device.logCall, ht.trace]

theorem holds_gets_buffer {α : Type} (f : SampleBuffer → α) (d : Device) :
    Holds (Transfer buffer) (fun _ => True) (fun v t => v = f (buffer d) ∧ Sent buffer d [] t)
      (Proc.gets fun d => f (buffer d)) d :=
  holds_act trivial fun _ ht =>
    ⟨trivial, congrArg f ht.buffer, ht.buffer, by simpa using ht.trace⟩

theorem Sent.append {d t u : Device} {calls calls' : List Call} (h : Sent buffer d calls t)
    (h' : Sent buffer t calls' u) : Sent buffer d (calls ++ calls') u :=
  ⟨h'.1.trans h.1, by rw [h'.2, h.2, List.append_assoc]⟩

theorem holds_sendChunks (hb : Inert buffer) (samps total offset : ℕ) :
    Holds (Transfer buffer) (fun _ => True)
      (fun _ => Sent buffer d
        (exchange (bulkChunks (buffer d).mBuffer (2 * samps + offset) total)))
      (sendChunks buffer samps total offset) d := by
  induction total using Nat.strong_induction_on generalizing offset d with
  | _ total ih =>
    have hwrite : ∀ n, Holds (Transfer buffer) (fun _ => True)
        (fun _ => Sent buffer d [.write (readBytes (buffer d).mBuffer (2 * samps + offset) n)])
        (USBSerial.write fun d => readBytes (buffer d).mBuffer (2 * samps + offset) n) d :=
      fun n => holds_write hb (fun d => readBytes (buffer d).mBuffer (2 * samps + offset) n)
        fun t ht => by rw [ht]
    rw [sendChunks]
    split
    · rename_i hmore
      refine (hwrite 512).bind fun _ t _ ht => (holds_awaitAck hb).bind fun _ u _ hu => ?_
      have hrest := ih (total - 512) (by omega) (offset + 512) (d := u)
      rw [hu.1, ht.1, ← Nat.add_assoc] at hrest
      refine hrest.mono fun _ v _ hv => ?_
      rw [bulkChunks_of_lt hmore]
      exact ht.append (hu.append hv)
    · rename_i hlast
      rw [bulkChunks_of_le (by omega)]
      refine (hwrite total).bind fun _ t _ ht => (holds_awaitAck hb).mono fun _ u _ hu => ?_
      exact ht.append hu

/-- The reply to a mark, wherever it is interrupted. -/
theorem holds_sendModified (hb : Buffer buffer setBuffer) {m : ℕ}
    (hm : (buffer d).mModified = some m) :
    Holds (Transfer buffer) (fun _ => True)
      (fun _ t => buffer t = (buffer d).taken ∧ t.trace = d.trace ++
        .write (header ((buffer d).mSize / 2)) :: exchange ((buffer d).halfChunks m))
      (sendModified buffer setBuffer) d := by
  let b := buffer d
  have htake : Holds (Transfer buffer) (fun _ => True)
      (fun mark t => mark = some m ∧ buffer t = b.taken ∧ t.trace = d.trace)
      (Proc.act fun d => ((buffer d).modified.1, setBuffer (buffer d).modified.2 d)) d := by
    refine holds_act trivial fun t ht => ⟨trivial, ?_, ?_, ?_⟩
    · rw [SampleBuffer.modified, ht.buffer, hm]
    · rw [hb.get, ht.buffer]
      rfl
    · rw [hb.trace, ht.trace]
  refine htake.bind fun mark t _ ht => ?_
  obtain ⟨rfl, htb, htt⟩ := ht
  refine (holds_gets_buffer (·.mSize) t).bind fun size u _ hu => ?_
  obtain ⟨rfl, hu⟩ := hu
  refine (holds_write hb.toInert _ fun _ _ => rfl).bind fun _ v _ hv => ?_
  refine (holds_gets_buffer (·.bytesize / 2) v).bind fun total w _ hw => ?_
  obtain ⟨rfl, hw⟩ := hw
  have hsize : (buffer t).mSize = b.mSize := by
    rw [htb]
    rfl
  have htotal : (buffer v).bytesize / 2 = b.mSize := by
    rw [hv.1, hu.1, SampleBuffer.bytesize, Nat.mul_div_cancel _ Nat.two_pos, hsize]
  rw [hsize] at hv
  rw [htotal]
  refine (holds_sendChunks hb.toInert m b.mSize 0).mono fun _ x _ hx => ?_
  have hall := hu.append (hv.append (hw.append hx))
  rw [hw.1, hv.1, hu.1, htb] at hall
  exact ⟨hall.1.trans htb, by rw [hall.2, htt]; rfl⟩

end Interrupted

/-! ### The reply as the host decodes it -/

/-- All bytes written, in order. -/
def written (calls : List Call) : List UInt8 :=
  calls.flatMap fun
    | .write bytes => bytes
    | _ => []

theorem written_exchange (cs : List (List UInt8)) : written (exchange cs) = cs.flatten := by
  induction cs with
  | nil => rfl
  | cons c cs ih =>
    rw [written, exchange] at ih
    simp [written, exchange, ih]

/-- The calls that send `half` as `n` samples: the header, and then writes of 512 bytes
and a last one of at most 512, one acknowledgement after each. -/
structure BulkReply (n : ℕ) (half : List UInt8) (cs : List (List UInt8)) : Prop where
  bytes : written (.write (header n) :: exchange cs) = header n ++ half
  bounds : ∀ c ∈ cs, 0 < c.length ∧ c.length ≤ 512
  full : ∀ c ∈ cs.dropLast, c.length = 512
  count : cs.length = (2 * n + 511) / 512

theorem bulkReply_halfChunks {b : SampleBuffer} {m n : ℕ} (hn : 0 < n) (hsize : b.mSize = 2 * n) :
    BulkReply n (readBytes b.mBuffer (2 * m) (2 * n)) (b.halfChunks m) := by
  have hpos : 0 < (readBytes b.mBuffer (2 * m) (2 * n)).length := by
    rw [readBytes_length]
    omega
  rw [SampleBuffer.halfChunks, hsize, bulkChunks]
  refine ⟨?_, fun c hc => chunks_bounds (by decide) hpos hc, fun c hc => chunks_full hc, ?_⟩
  · rw [written, List.flatMap_cons]
    change _ ++ written _ = _
    rw [written_exchange, chunks_flatten]
  · rw [chunks_length (by decide) hpos, readBytes_length]
    rfl

section Reply

variable {b : Board} {tr : List (Device × CommAct)} {d : Device} {r : Bulk} {acks : List UInt8}

/-- In every reachable state the reply to a mark at sample `m` is the `2 * n` bytes from
there on, `n` being the size the host has set last, and without a mark two zero bytes.
The former holds however the transfer is interrupted; and it ends once the host has
acknowledged its chunks. -/
theorem bulk_reply (h : CommRun b tr d) (hin : d.input = r.command :: acks) :
    (∀ n m, 0 < n → (r.buffer d).mSize = 2 * n → (r.buffer d).mModified = some m →
      param16 (header n) = n ∧ lastSize tr = n ∧
      ∃ cs, BulkReply n (readBytes (r.buffer d).mBuffer (2 * m) (2 * n)) cs ∧
        Holds (Transfer r.buffer) (fun _ => True)
          (fun _ t => (r.buffer t).mModified = none ∧
            t.trace = d.trace ++ [.read 1, .command r.command] ++ .write (header n) :: exchange cs)
          (dispatch r.command) (received d r.command acks) ∧
        (cs.length ≤ acks.length →
          ∃ d', CommunicationManager.threadComm.run d = .ok () d' ∧
            (r.buffer d').mModified = none ∧ d'.input = acks.drop cs.length ∧
            d'.trace = d.trace ++ [.read 1, .command r.command] ++
              .write (header n) :: exchange cs)) ∧
    ((r.buffer d).mModified = none →
      ∃ d', CommunicationManager.threadComm.run d = .ok () d' ∧
        (r.buffer d').mModified = none ∧ d'.input = acks ∧
        d'.trace = d.trace ++ [.read 1, .command r.command] ++ [.write [0, 0]]) := by
  have hrun : CommunicationManager.threadComm.run d =
      (sendModified r.buffer r.setBuffer).run (received d r.command acks) := by
    rw [threadComm_run, hin, ← r.dispatch_command]
  have hbuf := r.buffer_received d r.command acks
  have htrace : (received d r.command acks).trace = d.trace ++ [.read 1, .command r.command] := by
    simp [received, Device.logCall]
  refine ⟨fun n m hn hsize hm => ?_, fun hm => ?_⟩
  · have hlast : lastSize tr = n := by
      have := r.mSize_eq (sizedFor_run h)
      omega
    have hhalf : 2 * n / 2 = n := Nat.mul_div_cancel_left n Nat.two_pos
    have hfits := (r.buffer d).size_le
    rw [hsize, MAX_SAMPLE_BUFFER_SIZE] at hfits
    refine ⟨param16_header (by omega), hlast, _, bulkReply_halfChunks (m := m) hn hsize, ?_, ?_⟩
    · rw [r.dispatch_command]
      refine (holds_sendModified r.isBuffer (hbuf.symm ▸ hm)).mono fun _ t _ ht => ?_
      rw [hbuf, hsize, hhalf, htrace] at ht
      exact ⟨by rw [ht.1]; rfl, ht.2⟩
    · intro hacks
      have hok := fun t => sendModified_some (d := received d r.command acks) (t := t) r.isBuffer
        (hbuf.symm ▸ hm)
      rw [hbuf, hsize, hhalf] at hok
      refine ⟨_, hrun.trans ((hok _).mpr ⟨by omega, hacks, rfl⟩), ?_, ?_, ?_⟩
      · rw [r.isBuffer.exchanged, r.isBuffer.logCall, r.isBuffer.get]
        rfl
      · simp only [Device.exchanged, Device.logCall, r.isBuffer.input]
        rfl
      · simp only [Device.exchanged, Device.logCall, r.isBuffer.trace, htrace, List.append_assoc]
        rfl
  · refine ⟨_, hrun.trans (sendModified_none _ _ (hbuf.symm ▸ hm)), ?_, ?_, ?_⟩
    · rw [r.isBuffer.logCall, r.isBuffer.get]
      rfl
    · simp only [Device.logCall, r.isBuffer.input]
      rfl
    · simp only [Device.logCall, r.isBuffer.trace, htrace]

/-- One sample in each half, and the second has been stored. -/
theorem bulk_reply_one_sample :
    ∃ tr d, CommRun default tr d ∧
      tr.map Prod.snd = [.host ['B'.toUInt8, 1, 0, 's'.toUInt8, 0], .comm, .env] ∧
      d.Out.mModified = some 1 ∧
      ∃ d' cs, CommunicationManager.threadComm.run d = .ok () d' ∧
        BulkReply 1 (readBytes d.Out.mBuffer 2 2) cs ∧ d'.input = [] := by
  obtain ⟨tr, d, hr, hacts, hin, hsize⟩ : ∃ tr d, CommRun default tr d ∧
      tr.map Prod.snd = [.host ['B'.toUInt8, 1, 0, 's'.toUInt8, 0], .comm] ∧
      d.input = ['s'.toUInt8, 0] ∧ d.Out.mSize = 2 := by
    obtain ⟨tr, hr, hacts⟩ := run_of_execActs (powerUp default)
      [.host ['B'.toUInt8, 1, 0, 's'.toUInt8, 0], .comm] rfl
    exact ⟨tr, _, hr, hacts, by decide +kernel, by decide +kernel⟩
  have hmark : CommStep d .env { d with Out := d.Out.setMidmodified } :=
    show Rely d { d with Out := d.Out.setMidmodified } from { Rely.refl d with }
  have hmid : d.Out.setMidmodified.mModified = some 1 := by
    change some (0 + d.Out.mSize / 2) = _
    rw [hsize]
  obtain ⟨-, -, cs, hcs, -, hok⟩ :=
    (bulk_reply (r := .results) (hr.snoc hmark) hin).1 1 1 Nat.one_pos hsize hmid
  obtain ⟨d', hrun, -, hin', -⟩ := hok hcs.count.le
  refine ⟨_, _, hr.snoc hmark, by simp [hacts], hmid, d', cs, hrun, hcs, ?_⟩
  rw [hin', hcs.count]
  rfl

end Reply

end Stmdsp
