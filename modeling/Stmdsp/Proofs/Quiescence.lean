import Stmdsp.Proofs.Pipeline

/-! Idle means quiescent. The status flag is written by the command thread alone,
which runs only while the pipeline is empty, and an ADC that is stopped at that
moment puts nothing into it. -/

namespace Stmdsp

open Proc

/-- No message is waiting, on its way, or being processed. -/
structure Quiescent (s : Sys) : Prop where
  queue : s.dev.mMailbox.queue = []
  monitor : s.monitor = .fetching
  runner : s.runner.message = none

structure SysInv (s : Sys) : Prop where
  comm : CommSafe s
  reset : s.dev.mMailbox.reset = false
  quiet : s.dev.runStatus = .Idle → Quiescent s

theorem sysInv_boot (b : Board) : SysInv (boot b) where
  comm := .inr ⟨rfl, rfl, rfl⟩
  reset := rfl
  quiet := fun _ => ⟨rfl, rfl, rfl⟩

/-- The command thread steps in quiescent states only. -/
theorem quiescent_of_allowed {s : Sys} (h : allowed s .comm = true) : Quiescent s := by
  simp only [allowed, Bool.and_eq_true, beq_iff_eq, List.isEmpty_iff] at h
  obtain ⟨⟨hr, hm⟩, hq⟩ := h
  exact ⟨hq, hm, by rw [hr]; rfl⟩

/-- A stopped pipeline stays empty. -/
theorem Quiescent.step {s s' : Sys} {a : SysAct} (hq : Quiescent s)
    (hstop : s.dev.adc.driver.state = .READY) (ha : a ≠ .comm) (he : SysEffect s s' a) :
    Quiescent s' := by
  cases he with
  | comm _ => exact absurd rfl ha
  | fetch msg _ _ hq' => rw [hq.queue] at hq'; simp at hq'
  | receive msg _ _ hm => rw [hq.monitor] at hm; simp at hm
  | adc _ _ hact => rw [hstop] at hact; simp at hact
  | work _ _ _ hmail _ hm hr =>
    have hq' := congrArg MailView.queue hmail
    refine ⟨hq'.trans hq.queue, hm.trans hq.monitor, ?_⟩
    rcases hr with hr | hr
    · exact hr.trans hq.runner
    · exact hr

theorem SysInv.step {k : Layout} {s s' : Sys} {a : SysAct} (h : SysInv s) (hs : PrioStep k s a s') :
    SysInv s' := by
  obtain ⟨hallowed, hstep⟩ := hs
  by_cases ha : a = .comm
  · subst ha
    have hq := quiescent_of_allowed hallowed
    obtain ⟨hsafe, hmail, hm, hr⟩ := h.comm.step (sysStep_act hstep)
    refine ⟨hsafe, by rw [hmail.mMailbox]; exact h.reset, fun _ => ?_⟩
    exact ⟨by rw [hmail.mMailbox]; exact hq.queue, hm.trans hq.monitor, by rw [hr]; exact hq.runner⟩
  · obtain ⟨hi, hc, hr⟩ := sysStep_interference h.reset hstep ha
    refine ⟨h.comm.stable hi hc, hr, fun hidle => ?_⟩
    rw [hi.runStatus] at hidle
    exact (h.quiet hidle).step (h.comm.idleStopped.of_idle hidle).1 ha (sysStep_effect h.reset hstep).1

theorem sysInv_run {k : Layout} {b : Board} {tr : List (Sys × SysAct)} {s : Sys}
    (h : SysRun k b tr s) : SysInv s :=
  h.invariant (I := SysInv) (sysInv_boot b) fun _ _ _ hi hs => hi.step hs

/-! ### Handlers that need the pipeline empty -/

/-- The commands that change buffer sizes or algorithm memory. -/
def Exclusive (c : UInt8) : Prop := c = 'B'.toUInt8 ∨ c = 'E'.toUInt8

/-- What is left of a handler runs with the status `Idle` at every interruption
point. -/
abbrev StaysIdle (rest : Fw Unit) (d : Device) : Prop :=
  Holds Interference (fun d => d.runStatus = .Idle) (fun _ _ => True) rest d

theorem staysIdle_of_pipe {rest : Fw Unit} {d : Device} (hk : Keeps SamePipe rest)
    (h : d.runStatus = .Idle) : StaysIdle rest d := by
  have hkeep : Keeps (fun a b : Device => a.runStatus = .Idle → b.runStatus = .Idle) rest :=
    hk.mono fun _ _ hp ha => (congrArg PipeView.runStatus hp.view).trans ha
  exact (hkeep.holds (fun _ _ hi ha => hi.runStatus.trans ha) (fun _ h => h) h).mono
    fun _ _ _ _ => trivial

/-- The first step of a handler that asserts `Idle`: it is over, or idle from here on. -/
theorem staysIdle_guard {e : Error} {f : Bool → Fw Unit} {g : Device → Bool} {u : Device → Device}
    {next : Device → Fw Unit} (hf : f false = .done ()) (hk : Keeps SamePipe (f true))
    (h : (EM.assert (·.runStatus == .Idle) e).bind f = .step g u next) (d : Device) :
    next d = .done () ∨ StaysIdle (next d) (u d) := by
  cases h
  by_cases hidle : d.runStatus = .Idle
  · right
    simpa [hidle] using staysIdle_of_pipe hk hidle
  · left
    simpa [hidle] using hf

/-- How far a handler that needs the pipeline empty can be. -/
def ExclusiveSafe (s : Sys) : Prop :=
  ∀ c rest, s.comm = .running c rest → Exclusive c →
    rest = dispatch c ∨ rest = .done () ∨ StaysIdle rest s.dev

theorem exclusive_guard {c : UInt8} (hc : Exclusive c) :
    ∃ e f, dispatch c = (EM.assert (·.runStatus == .Idle) e).bind f ∧ f false = .done () ∧
      Keeps SamePipe (f true) := by
  -- An idle device takes the guard's branch, so its rest is the handler's body.
  rcases hc with rfl | rfl
  · have hpipe : Keeps SamePipe setBufferSize :=
      pipe_dispatch (c := 'B'.toUInt8) (by decide) (by decide) (by decide)
    exact ⟨.NotIdle, _, rfl, rfl, (hpipe (powerUp default) rfl).2⟩
  · have hpipe : Keeps SamePipe loadAlgorithm :=
      pipe_dispatch (c := 'E'.toUInt8) (by decide) (by decide) (by decide)
    exact ⟨.NotIdle, _, rfl, rfl, (hpipe (powerUp default) rfl).2⟩

theorem ExclusiveSafe.step {k : Layout} {s s' : Sys} {a : SysAct} (h : ExclusiveSafe s)
    (hreset : s.dev.mMailbox.reset = false) (hs : sysStep k s a = some s') : ExclusiveSafe s' := by
  by_cases ha : a = .comm
  · subst ha
    have hc : s.commStep = some s' := sysStep_act hs
    unfold Sys.commStep at hc
    intro c rest hcomm hex
    split at hc
    · split at hc
      · simp at hc
      · cases hc
        cases hcomm
        exact .inl rfl
    · cases hc
      cases hcomm
    · cases hc
      exact h c rest hcomm hex
    · rename_i c' g u next hrun
      split at hc
      · rename_i hg
        cases hc
        cases hcomm
        right
        rcases h c _ hrun hex with hfirst | hdone | hidle
        · obtain ⟨e, f, hd, hf, hk⟩ := exclusive_guard hex
          exact staysIdle_guard hf hk (hd ▸ hfirst.symm) s.dev
        · cases hdone
        · exact .inr (hidle.next (.refl _) hg)
      · simp at hc
  · obtain ⟨hi, hcomm', -⟩ := sysStep_interference hreset hs ha
    intro c rest hcomm hex
    rw [hcomm'] at hcomm
    refine (h c rest hcomm hex).imp_right (Or.imp_right fun hidle => ?_)
    exact hidle.stable hi Interference.trans (fun _ _ hi ha => hi.runStatus.trans ha)
      fun _ _ _ _ _ => trivial

theorem exclusiveSafe_run {k : Layout} {b : Board} {tr : List (Sys × SysAct)} {s : Sys}
    (h : SysRun k b tr s) : ExclusiveSafe s := by
  refine (h.invariant (I := fun s => SysInv s ∧ ExclusiveSafe s) ⟨sysInv_boot b, ?_⟩ ?_).2
  · intro c rest hcomm
    cases hcomm
  · intro s a s' hi hs
    exact ⟨hi.1.step hs, hi.2.step hi.1.reset hs.2⟩

/-- In every reachable state with the status `Idle` the ADC is stopped, has no
handler, and the pipeline is empty; and a handler of 'B' or 'E' that has got past
its guard and is not yet over runs in such states only. -/
theorem idle_quiescent {k : Layout} {b : Board} {tr : List (Sys × SysAct)} {s : Sys}
    (h : SysRun k b tr s) :
    (s.dev.runStatus = .Idle →
      s.dev.adc.driver.state = .READY ∧ s.dev.adc.mOperation = none ∧ Quiescent s) ∧
    ∀ c rest, s.comm = .running c rest → Exclusive c →
      rest = dispatch c ∨ rest = .done () ∨ (s.dev.runStatus = .Idle ∧ Quiescent s) := by
  have hinv := sysInv_run h
  constructor
  · intro hidle
    obtain ⟨hadc, hop⟩ := hinv.comm.idleStopped.of_idle hidle
    exact ⟨hadc, hop, hinv.quiet hidle⟩
  · intro c rest hcomm hex
    refine (exclusiveSafe_run h c rest hcomm hex).imp_right (Or.imp_right fun hidle => ?_)
    exact ⟨hidle.inv, hinv.quiet hidle.inv⟩

/-- Buffers of two samples, and a conversion. -/
def startSession : List SysAct :=
  .runner .wait :: .host ['B'.toUInt8, 1, 0, 'R'.toUInt8] :: List.replicate 24 .comm

/-- The runner has the message of the first event. -/
def firstMessage : List SysAct :=
  startSession.append [.adc fun _ => 7, .monitor, .runner .receive]

/-- It is handled, and the conversion stopped. -/
def shortSession : List SysAct :=
  firstMessage.append (.runner (.call ⟨0, 0⟩) :: .runner .store :: .runner .copy :: .runner .wait ::
    .host ['S'.toUInt8] :: List.replicate 12 .comm)

theorem idle_quiescent_after_stop :
    ∃ tr s, SysRun default default tr s ∧ tr.map Prod.snd = shortSession ∧
      s.dev.runStatus = .Idle ∧ s.dev.adc.driver.state = .READY ∧ s.dev.adc.mOperation = none ∧
      Quiescent s := by
  obtain ⟨tr, s, hr, hacts, hidle⟩ := exists_run_of_exec default default shortSession
    (fun s => s.dev.runStatus == .Idle) (by decide +kernel)
  exact ⟨tr, s, hr, hacts, by simpa using hidle, (idle_quiescent hr).1 (by simpa using hidle)⟩

end Stmdsp
