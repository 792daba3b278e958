import Stmdsp.Lib.Since
import Stmdsp.Model.ResultRun
import Stmdsp.Proofs.Bulk

/-! Results the host reads with 's': whether the half it gets was stored since it last
read one, and since the run and the geometry it belongs to began. -/

namespace Stmdsp

open Proc

/-! ### The mark of `Out` over one pass -/

/-- The next pass of the loop accepts an 'R'. -/
def AcceptsStart (d : Device) : Prop := nextCommand d = some 'R'.toUInt8 ∧ d.runStatus = .Idle

/-- The next pass replies to an 's' with a half. -/
def SendsResults (d : Device) : Prop :=
  nextCommand d = some 's'.toUInt8 ∧ d.Out.mModified ≠ none

def outMark (d : Device) : Option ℕ := d.Out.mModified

theorem outMark_step {c : UInt8} (hs : c ≠ 's'.toUInt8) (d d' : Device) (h : HandlerStep c d d') :
    outMark d' = outMark d := by
  cases h with
  | outMark hc => exact absurd hc hs
  | _ => rfl

section Pass

variable {d d' : Device}

/-- Only an 's' takes the mark. -/
theorem pass_mark (hs : nextCommand d ≠ some 's'.toUInt8)
    (h : CommunicationManager.threadComm.run d = .ok () d') :
    d'.Out.mModified = d.Out.mModified := by
  have hmark : outMark d' = outMark d := by
    apply view_of_pass ?_ h
    rintro c hnext s s' hstep
    refine outMark_step ?_ s s' hstep
    rintro rfl
    exact hs hnext
  exact hmark

/-- What an 's' sends, and that it takes the mark. -/
theorem pass_results (hs : nextCommand d = some 's'.toUInt8)
    (h : CommunicationManager.threadComm.run d = .ok () d') :
    d'.Out.mModified = none ∧ ∃ reply,
      d'.trace = d.trace ++ [.read 1, .command 's'.toUInt8] ++ reply ∧
      match d.Out.mModified with
      | none => reply = [.write [0, 0]]
      | some m =>
        written reply = header (d.Out.mSize / 2) ++ readBytes d.Out.mBuffer (2 * m) d.Out.mSize := by
  obtain ⟨rest, hin⟩ := input_of_nextCommand hs
  rw [threadComm_run, hin] at h
  change (sendModified (·.Out) fun b d => { d with Out := b }).run
    (received d 's'.toUInt8 rest) = .ok () d' at h
  have htrace : (received d 's'.toUInt8 rest).trace = d.trace ++ [.read 1, .command 's'.toUInt8] := by
    simp [received, Device.logCall]
  cases hm : d.Out.mModified with
  | none =>
    rw [sendModified_none (·.Out) _ (d := received d _ rest) hm] at h
    cases h
    exact ⟨rfl, _, congrArg (· ++ [_]) htrace, rfl⟩
  | some m =>
    obtain ⟨-, -, rfl⟩ := (sendModified_some buffer_Out (d := received d _ rest) hm).mp h
    refine ⟨rfl, .write (header (d.Out.mSize / 2)) :: exchange (d.Out.halfChunks m), ?_, ?_⟩
    · simp only [Device.exchanged, Device.logCall, htrace, List.append_assoc]
      rfl
    · change _ ++ written _ = _
      rw [written_exchange, SampleBuffer.halfChunks, bulkChunks, chunks_flatten]

end Pass

/-! ### Runs -/

/-- A conversion that stored the half of `b` at sample `m`. -/
def StoresHalf (b : SampleBuffer) (m : ℕ) (p : Device × ResultAct) : Prop :=
  ∃ first data, p.2 = .convert first data ∧ m = if first then b.data else b.middata

/-- A pass that begins a new run or a new geometry. -/
def Renews (p : Device × ResultAct) : Prop :=
  p.2 = .comm ∧ (AcceptsStart p.1 ∨ AcceptsSize p.1)

/-- A pass after which earlier results are no longer fresh. -/
def Refreshes (p : Device × ResultAct) : Prop := Renews p ∨ (p.2 = .comm ∧ SendsResults p.1)

/-- A new run or geometry begins with no half left to be read. -/
def Clean (p : Device × ResultAct) : Prop := Renews p → p.1.Out.mModified = none

/-- The half to be read next was stored since it could last become stale. -/
def Fresh (tr : List (Device × ResultAct)) (d : Device) : Prop :=
  ∀ m, d.Out.mModified = some m → Since (StoresHalf d.Out m) Refreshes tr

section Runs

variable {b : Board} {tr : List (Device × ResultAct)} {d d' : Device} {a : ResultAct}

theorem storesHalf_of_sizes {b b' : SampleBuffer} {m : ℕ} {p : Device × ResultAct}
    (h : b'.mSize = b.mSize) (hp : StoresHalf b m p) : StoresHalf b' m p := by
  obtain ⟨first, data, hconv, hm⟩ := hp
  refine ⟨first, data, hconv, hm.trans ?_⟩
  rw [SampleBuffer.middata, SampleBuffer.middata, h]
  rfl

/-- A step that leaves mark and size, and makes nothing stale. -/
theorem Fresh.snoc (hf : Fresh tr d) (hmark : d'.Out.mModified = d.Out.mModified)
    (hsize : d'.Out.mSize = d.Out.mSize) (hno : ¬ Refreshes (d, a)) :
    Fresh (tr ++ [(d, a)]) d' := by
  intro m hm
  exact ((hf m (hmark ▸ hm)).snoc hno).mono fun _ => storesHalf_of_sizes hsize

theorem fresh_of_none (h : d.Out.mModified = none) : Fresh tr d := by
  intro m hm
  rw [h] at hm
  simp at hm

theorem not_refreshes (h : a ≠ .comm) : ¬ Refreshes (d, a) := by
  rintro (⟨ha, -⟩ | ⟨ha, -⟩) <;> exact h ha

theorem fresh_pass (hf : Fresh tr d) (hclean : Clean (d, .comm))
    (h : CommunicationManager.threadComm.run d = .ok () d') : Fresh (tr ++ [(d, .comm)]) d' := by
  by_cases hs : nextCommand d = some 's'.toUInt8
  · exact fresh_of_none (pass_results hs h).1
  have hmark := pass_mark hs h
  by_cases hrenew : Renews (d, .comm)
  · exact fresh_of_none (hmark.trans (hclean hrenew))
  · have hsizes := pass_sizes (fun hB => hrenew ⟨rfl, .inr hB⟩) h
    refine hf.snoc hmark (congrArg Prod.snd hsizes) ?_
    rintro (hr | ⟨-, hs', -⟩)
    · exact hrenew hr
    · exact hs hs'

theorem fresh_step (hf : Fresh tr d) (hclean : Clean (d, a)) (h : ResultStep d a d') :
    Fresh (tr ++ [(d, a)]) d' := by
  cases a with
  | host bytes =>
    obtain rfl := h
    exact hf.snoc rfl rfl (not_refreshes (by simp))
  | env => exact hf.snoc h.2 h.1.outSize (not_refreshes (by simp))
  | comm => exact fresh_pass hf hclean h
  | convert first data =>
    obtain rfl := h
    intro m hm
    refine since_last ⟨first, data, rfl, ?_⟩
    cases first <;> exact (Option.some.inj hm).symm

theorem fresh_run (h : ResultRun b tr d) (hclean : ∀ p ∈ tr, Clean p) : Fresh tr d := by
  induction h with
  | nil => exact fresh_of_none rfl
  | snoc _ hs ih =>
    rw [List.forall_mem_append, List.forall_mem_singleton] at hclean
    exact fresh_step (ih hclean.1) hclean.2 hs

/-- In a run whose 'R's and 'B's all find the last half read, an 's' replies with two zero
bytes or with a half of the present size that was stored since the last such reply, 'R'
and 'B'. Before the first conversion after an 'R' or 'B' it replies with zeros. -/
theorem results_fresh (h : ResultRun b tr d) (hclean : ∀ p ∈ tr, Clean p)
    (hs : nextCommand d = some 's'.toUInt8)
    (hpass : CommunicationManager.threadComm.run d = .ok () d') :
    ∃ reply, d'.trace = d.trace ++ [.read 1, .command 's'.toUInt8] ++ reply ∧
      (reply = [.write [0, 0]] ∨ ∃ m, (m = 0 ∨ m = d.Out.mSize / 2) ∧
        written reply = header (d.Out.mSize / 2) ++ readBytes d.Out.mBuffer (2 * m) d.Out.mSize ∧
        Since (StoresHalf d.Out m) Refreshes tr) ∧
      ∀ tr₁ p tr₂, tr = tr₁ ++ p :: tr₂ → Renews p →
        (∀ q ∈ tr₂, ∀ first data, q.2 ≠ .convert first data) → reply = [.write [0, 0]] := by
  have hfresh := fresh_run h hclean
  obtain ⟨-, reply, htrace, hreply⟩ := pass_results hs hpass
  refine ⟨reply, htrace, ?_⟩
  cases hm : d.Out.mModified with
  | none =>
    rw [hm] at hreply
    exact ⟨.inl hreply, fun _ _ _ _ _ _ => hreply⟩
  | some m =>
    rw [hm] at hreply
    have hsince := hfresh m hm
    refine ⟨.inr ⟨m, ?_, hreply, hsince⟩, fun tr₁ p tr₂ htr hp hno => ?_⟩
    · obtain ⟨-, p, -, -, ⟨first, -, -, hhalf⟩, -⟩ := hsince
      cases first with
      | false => exact .inr (hhalf.trans (Nat.zero_add _))
      | true => exact .inl hhalf
    · have hpass' : ¬ StoresHalf d.Out m p := by
        rintro ⟨_, _, hconv, -⟩
        rw [hp.1] at hconv
        simp at hconv
      obtain ⟨q, hq, first, data, hconv, -⟩ :=
        Since.exists_after tr₂ (htr ▸ hsince) (.inl hp) hpass'
      exact absurd hconv (hno q hq first data)

end Runs

/-- A reply to a mark, once its chunks have been acknowledged. -/
theorem pass_results_ok {d : Device} {m : ℕ} {rest : List UInt8} (hin : d.input = 's'.toUInt8 :: rest)
    (hm : d.Out.mModified = some m) (hsize : 0 < d.Out.mSize)
    (hacks : (d.Out.halfChunks m).length ≤ rest.length) :
    ∃ d', CommunicationManager.threadComm.run d = .ok () d' := by
  rw [threadComm_run, hin]
  exact ⟨_, (sendModified_some buffer_Out (d := received d _ rest) hm).mpr ⟨hsize, hacks, rfl⟩⟩

theorem halfChunks_two {b : SampleBuffer} (h : b.mSize = 2) (m : ℕ) : (b.halfChunks m).length = 1 := by
  rw [SampleBuffer.halfChunks, h, bulkChunks_of_le (by decide)]
  rfl

theorem clean_of_mark {d : Device} {a : ResultAct} (h : d.Out.mModified = none) : Clean (d, a) :=
  fun _ => h

theorem clean_of_act {d : Device} {a : ResultAct} (h : a ≠ .comm) : Clean (d, a) :=
  fun hr => absurd hr.1 h

/-- A buffer of two samples, the first of which has been stored. -/
theorem results_fresh_first_half :
    ∃ tr d d', ResultRun default tr d ∧
      tr.map Prod.snd = [.host ['B'.toUInt8, 1, 0, 'R'.toUInt8], .comm, .comm,
        .convert true fun _ _ => 0, .host ['s'.toUInt8, 0]] ∧
      CommunicationManager.threadComm.run d = .ok () d' ∧ d.Out.mModified = some 0 ∧
      ∃ reply, d'.trace = d.trace ++ [.read 1, .command 's'.toUInt8] ++ reply := by
  obtain ⟨tr, d, hr, hacts, hclean, hin, hmark, hsize⟩ : ∃ tr d, ResultRun default tr d ∧
      tr.map Prod.snd = [.host ['B'.toUInt8, 1, 0, 'R'.toUInt8], .comm, .comm,
        .convert true fun _ _ => 0, .host ['s'.toUInt8, 0]] ∧ (∀ p ∈ tr, Clean p) ∧
      d.input = ['s'.toUInt8, 0] ∧ d.Out.mModified = some 0 ∧ d.Out.mSize = 2 := by
    have hhost := Run.nil.snoc (resultStep_host (d := powerUp default)
      ['B'.toUInt8, 1, 0, 'R'.toUInt8])
    have hsize := hhost.snoc (resultStep_pass rfl)
    have hstart := hsize.snoc (resultStep_pass rfl)
    have hconv := hstart.snoc (resultStep_convert true fun _ _ => 0)
    refine ⟨_, _, hconv.snoc (resultStep_host ['s'.toUInt8, 0]), rfl, ?_, rfl, rfl,
      by decide +kernel⟩
    simp only [List.nil_append, List.cons_append, List.forall_mem_cons]
    exact ⟨clean_of_act (by simp), clean_of_mark rfl, clean_of_mark rfl, clean_of_act (by simp),
      clean_of_act (by simp), by simp⟩
  obtain ⟨d', hpass⟩ := pass_results_ok hin hmark (by omega) (by rw [halfChunks_two hsize]; rfl)
  obtain ⟨reply, htrace, -, -⟩ := results_fresh hr hclean (by rw [nextCommand, hin]; rfl) hpass
  exact ⟨tr, d, d', hr, hacts, hpass, hmark, reply, htrace⟩

/-- Results of the last run, read in the next one before its first conversion. -/
theorem results_stale :
    ∃ tr d d', ResultRun default tr d ∧
      tr.map Prod.snd = [.host ['B'.toUInt8, 1, 0, 'R'.toUInt8], .comm, .comm,
        .convert true fun _ _ => 0, .host ['S'.toUInt8, 'R'.toUInt8, 's'.toUInt8, 0], .comm,
        .comm] ∧
      nextCommand d = some 's'.toUInt8 ∧ CommunicationManager.threadComm.run d = .ok () d' ∧
      d.Out.mModified = some 0 ∧ ∀ m, ¬ Since (StoresHalf d.Out m) Refreshes tr := by
  obtain ⟨tr, d, hr, hacts, hnext, hidle, hok, hin, hmark, hsize⟩ : ∃ tr d, ResultRun default tr d ∧
      tr.map Prod.snd = [.host ['B'.toUInt8, 1, 0, 'R'.toUInt8], .comm, .comm,
        .convert true fun _ _ => 0, .host ['S'.toUInt8, 'R'.toUInt8, 's'.toUInt8, 0], .comm] ∧
      nextCommand d = some 'R'.toUInt8 ∧ d.runStatus = .Idle ∧
      (CommunicationManager.threadComm.run d).isOk = true ∧
      (CommunicationManager.threadComm.run d).state.input = ['s'.toUInt8, 0] ∧
      (CommunicationManager.threadComm.run d).state.Out.mModified = some 0 ∧
      (CommunicationManager.threadComm.run d).state.Out.mSize = 2 := by
    obtain ⟨tr, hr, hacts⟩ := run_of_execResults (powerUp default)
      [.host ['B'.toUInt8, 1, 0, 'R'.toUInt8], .comm, .comm, .convert true fun _ _ => 0,
        .host ['S'.toUInt8, 'R'.toUInt8, 's'.toUInt8, 0], .comm] rfl
    exact ⟨tr, _, hr, hacts, rfl, rfl, by decide +kernel, by decide +kernel, by decide +kernel,
      by decide +kernel⟩
  obtain ⟨d', hpass⟩ := pass_results_ok hin hmark (by omega) (by rw [halfChunks_two hsize]; rfl)
  refine ⟨_, _, d', hr.snoc (resultStep_pass (Outcome.eq_of_isOk hok)), by simp [hacts], by rw [nextCommand, hin]; rfl, hpass,
    hmark, fun m hm => ?_⟩
  have hlast : ¬ StoresHalf (CommunicationManager.threadComm.run d).state.Out m (d, .comm) := by
    rintro ⟨_, _, hconv, -⟩
    simp at hconv
  have hafter := hm.exists_after [] (.inl ⟨rfl, .inl ⟨hnext, hidle⟩⟩) hlast
  simp at hafter

end Stmdsp
