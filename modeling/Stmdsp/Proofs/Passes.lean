import Stmdsp.Model.PlaybackRun
import Stmdsp.Model.ResultRun
import Stmdsp.Proofs.EndToEnd
import Stmdsp.Proofs.Environment

/-! The steps of the smaller runs in the whole system: a pass of the command thread's loop
and a store of results, step by step as long as nothing interrupts them, and all other
steps as they are. With this the results about such runs are about the system, too. -/

namespace Stmdsp

open Proc

section Passes

variable {k : Layout} {s : Sys} {d' : Device}

theorem sysStep_comm (halive : s.dead = false) : sysStep k s .comm = s.commStep := by
  rw [sysStep, if_neg (by simp [halive])]
  rfl

/-- The mailbox is all that `allowed` looks at of the device. -/
theorem allowed_comm {s' : Sys} (h : allowed s .comm = true) (hr : s'.runner = s.runner)
    (hm : s'.monitor = s.monitor) (hq : s'.dev.mMailbox = s.dev.mMailbox) :
    allowed s' .comm = true := by
  simpa only [allowed, hr, hm, hq] using h

/-- A handler that returns is a run of the command thread's steps. -/
theorem run_of_handler {c : UInt8} {p : Fw Unit} (hk : Keeps SameMail p)
    (hcomm : s.comm = .running c p) (hallowed : allowed s .comm = true) (halive : s.dead = false)
    (h : p.run s.dev = .ok () d') :
    ∃ tr, Run (PrioStep k) s tr { s with dev := d', comm := .idle } := by
  induction p generalizing s with
  | done a =>
    obtain ⟨-, rfl⟩ := (Outcome.ok.injEq ..).mp h
    refine ⟨_, .single (a := .comm) ⟨hallowed, ?_⟩⟩
    rw [sysStep_comm halive, Sys.commStep, hcomm]
  | halt => simp at h
  | step g u next ih =>
    simp only [Proc.run] at h
    split at h
    · rename_i hg
      obtain ⟨hmail, hk'⟩ := hk s.dev hg
      have hs : PrioStep k s .comm { s with dev := u s.dev, comm := .running c (next s.dev) } := by
        refine ⟨hallowed, ?_⟩
        rw [sysStep_comm halive, Sys.commStep, hcomm]
        exact if_pos hg
      obtain ⟨tr, hr⟩ := ih s.dev (s := { s with dev := u s.dev, comm := .running c (next s.dev) })
        hk' rfl (allowed_comm hallowed rfl rfl hmail.mMailbox) halive h
      exact ⟨_, (Run.single hs).append hr⟩
    · simp at h

/-- A pass that returns is one, from reading the command byte on. -/
theorem run_of_pass {c : UInt8} {rest : List UInt8} (hcomm : s.comm = .idle)
    (hinput : s.dev.input = c :: rest) (hallowed : allowed s .comm = true)
    (halive : s.dead = false) (h : CommunicationManager.threadComm.run s.dev = .ok () d') :
    ∃ tr, Run (PrioStep k) s tr { s with dev := d' } := by
  rw [threadComm_run, hinput] at h
  have hs : PrioStep k s .comm
      { s with dev := received s.dev c rest, comm := .running c (dispatch c) } := by
    refine ⟨hallowed, ?_⟩
    rw [sysStep_comm halive, Sys.commStep, hcomm]
    dsimp only
    rw [hinput]
  obtain ⟨tr, hr⟩ := run_of_handler (k := k)
    (s := { s with dev := received s.dev c rest, comm := .running c (dispatch c) })
    (mail_dispatch c) rfl (allowed_comm hallowed rfl rfl rfl) halive h
  have hrun := (Run.single hs).append hr
  rw [← hcomm] at hrun
  exact ⟨_, hrun⟩

/-- Where an accepted 'R' leaves the conversion, for buffers of any even size. -/
theorem setup_of_start {n : ℕ} {d : Device} (hidle : d.runStatus = .Idle)
    (hin : d.In.mSize = 2 * n) (hout : d.Out.mSize = 2 * n) (hreset : d.mMailbox.reset = false)
    (h : startConversion.run d = .ok () d') : Setup n d' := by
  obtain ⟨-, -, -, c₁, c₂, -, -, rfl⟩ := startConversion_ok hidle h
  exact ⟨hin, hout, congrArg (Driver.mk .ACTIVE) hin, rfl, hin, by simp [startingAdc], hreset⟩

/-- From a quiescent system, a pass that accepts 'R' leads to a state in which a
stream of events can begin. -/
theorem converting_of_start {n : ℕ} {rest : List UInt8} (hcomm : s.comm = .idle)
    (hallowed : allowed s .comm = true) (halive : s.dead = false)
    (hreset : s.dev.mMailbox.reset = false) (hidle : s.dev.runStatus = .Idle)
    (hin : s.dev.In.mSize = 2 * n) (hout : s.dev.Out.mSize = 2 * n)
    (hinput : s.dev.input = 'R'.toUInt8 :: rest)
    (h : CommunicationManager.threadComm.run s.dev = .ok () d') :
    ∃ tr s', Run (PrioStep k) s tr s' ∧ Converting n s' := by
  obtain ⟨tr, hr⟩ := run_of_pass (k := k) hcomm hinput hallowed halive h
  rw [threadComm_run, hinput] at h
  dsimp only at h
  have hset := setup_of_start (d := received s.dev _ rest) hidle hin hout hreset h
  have hmail := (mail_dispatch 'R'.toUInt8).run SameMail.refl SameMail.trans
    (received s.dev 'R'.toUInt8 rest)
  rw [h] at hmail
  exact ⟨tr, _, hr, hset, quiescent_of_allowed (allowed_comm hallowed rfl rfl hmail.mMailbox)⟩

end Passes

/-! ### The size of a block -/

section Blocks

variable {k : Layout} {s s' : Sys} {a : SysAct}

/-- The size the runner has taken for the block in its hands. -/
def Runner.size : Runner → Option ℕ
  | .starting _ size => some size
  | .user _ size _ => some size
  | .syscall _ size _ _ _ => some size
  | .stopping _ size _ => some size
  | .returned _ size _ => some size
  | _ => none

/-- Where the runner's size after a step comes from. -/
def SizeFrom (s s' : Sys) : Prop :=
  s'.runner.size = none ∨ s'.runner.size = s.runner.size ∨
    s'.runner.size = some (s.dev.In.mSize / 2)

theorem SizeFrom.of_eq (h : s'.runner = s.runner) : SizeFrom s s' := .inr (.inl (by rw [h]))

theorem sizeFrom_resume (d : Device) (r : Resume) : SizeFrom s (s.resume d r) := by
  cases r with
  | restart newpsp => exact .inl rfl
  | again newpsp =>
    refine .inr (.inl ?_)
    rw [Sys.resume]
    cases s.runner <;> rfl
  | _ => exact .of_eq rfl

theorem sizeFrom_beginMessage {msg : Msg} {ctx : Context} (h : s.beginMessage k msg ctx = some s') :
    SizeFrom s s' := by
  simp only [Sys.beginMessage] at h
  split at h
  · split at h
    · cases h
      exact .inr (.inr rfl)
    · split at h
      · cases h
        exact .inr (.inr rfl)
      · simp at h
  · cases h
    exact .inr (.inr rfl)

theorem sizeFrom_runnerStep {x : RunnerAct} (h : s.runnerStep k x = some s') : SizeFrom s s' := by
  unfold Sys.runnerStep at h
  split at h
  · cases h
    exact .inl rfl
  · split at h
    · cases h
      exact .inl rfl
    · simp at h
  · exact sizeFrom_beginMessage h
  · rename_i hr
    split at h
    · cases h
      exact .inr (.inl (by rw [hr]; rfl))
    · simp at h
  · rename_i hr
    cases h
    exact .inr (.inl (by rw [hr]; rfl))
  · rename_i hr
    split at h
    · simp at h
    · cases h
      exact .inr (.inl (by rw [hr]; rfl))
  · rename_i hr
    cases h
    refine .inr (.inl ?_)
    rw [hr]
    dsimp only
    split <;> rfl
  · rename_i hr
    split at h
    · cases h
      exact .inr (.inl (by rw [hr]; rfl))
    · simp at h
  · rename_i hr
    cases h
    exact .inr (.inl (by rw [hr]; rfl))
  · cases h
    unfold Sys.beginStore
    dsimp only
    split
    · exact .inl rfl
    · exact .inl rfl
  · cases h
    unfold Sys.copyBlock
    dsimp only [SizeFrom]
    split
    · exact .inl rfl
    · exact .inl rfl
  · simp at h

theorem sizeFrom_sysStep (h : sysStep k s a = some s') : SizeFrom s s' := by
  replace h := sysStep_act h
  cases a with
  | host bytes =>
    cases h
    exact .of_eq rfl
  | comm => exact .of_eq (commStep_runner h)
  | monitor => exact .of_eq (monitorStep_runner h)
  | runner x => exact sizeFrom_runnerStep h
  | adc capture =>
    rcases (adcStep_cases h).2 with ⟨-, rfl⟩ | ⟨-, rfl⟩
    · exact sizeFrom_resume _ _
    · exact .of_eq rfl
  | dac full =>
    obtain ⟨-, rfl⟩ := act_dac h
    exact .of_eq rfl
  | memFault lr =>
    obtain ⟨ctx, -, rfl⟩ := faultStep_cases h
    exact sizeFrom_resume _ _
  | hardFault lr =>
    cases h
    exact .of_eq rfl

/-- The runner's block is half of `In`, whose size changes only while it has none. -/
def HalfInHand (s : Sys) : Prop := ∀ size, s.runner.size = some size → size = s.dev.In.mSize / 2

theorem HalfInHand.step (h : HalfInHand s) (hreset : s.dev.mMailbox.reset = false)
    (hs : PrioStep k s a s') : HalfInHand s' := by
  intro size hsize
  by_cases hcomm : a = .comm
  · subst hcomm
    have hwait : s.runner = .waiting := by
      have hallowed := hs.1
      simp only [allowed, Bool.and_eq_true, beq_iff_eq] at hallowed
      exact hallowed.1.1
    rw [commStep_runner (sysStep_act hs.2), hwait] at hsize
    simp [Runner.size] at hsize
  · have hin : s'.dev.In.mSize = s.dev.In.mSize := by
      rcases (sysStep_effect hreset hs.2).2 with hc | ⟨bytes, -, rfl⟩ | hframe
      · exact absurd hc hcomm
      · rfl
      · exact hframe.rely.inSize
    rw [hin]
    rcases sizeFrom_sysStep hs.2 with hnone | hsame | hnew
    · rw [hnone] at hsize
      simp at hsize
    · exact h size (hsame ▸ hsize)
    · rw [hnew, Option.some.injEq] at hsize
      exact hsize.symm

theorem halfInHand_run {b : Board} {tr : List (Sys × SysAct)} (h : SysRun k b tr s) :
    HalfInHand s := by
  refine (h.invariant (I := fun s => SysInv s ∧ HalfInHand s) ⟨sysInv_boot b, ?_⟩ ?_).2
  · intro size hsize
    simp [boot, Runner.size] at hsize
  · intro s a s' hi hs
    exact ⟨hi.1.step hs, hi.2.step hi.1.reset hs⟩

end Blocks

/-! ### Stores of results -/

section Stores

variable {k : Layout} {s : Sys} {msg : Msg} {p : Ptr}

theorem prioStep_runner {s' : Sys} {a : RunnerAct} (halive : s.dead = false)
    (h : s.runnerStep k a = some s') : PrioStep k s (.runner a) s' := by
  refine ⟨rfl, ?_⟩
  rw [sysStep, if_neg (by simp [halive])]
  exact h

/-- The blocks from word `w` on. -/
theorem run_of_copies {base srcend w : ℕ} (halive : s.dead = false)
    (hrunner : s.runner = .copying msg p base srcend w) :
    ∃ tr, Run (PrioStep k) s tr { s with
      dev := { s.dev with
        Out := s.dev.Out.withStorage (copyLoop (p.source s.dev) base srcend w s.dev.Out.mBuffer) }
      runner := .top } := by
  induction hn : srcend - w using Nat.strong_induction_on generalizing s w with
  | _ n ih =>
    have hstep : PrioStep k s (.runner .copy) (s.copyBlock msg p base srcend w) :=
      prioStep_runner halive (by simp [Sys.runnerStep, hrunner])
    rw [copyLoop]
    dsimp only
    split
    · rename_i hmore
      obtain ⟨tr, hr⟩ := ih (srcend - (w + 8)) (by omega)
        (s := s.copyBlock msg p base srcend w) (w := w + 8) halive (if_pos hmore) rfl
      exact ⟨_, (Run.single hstep).append hr⟩
    · rename_i hlast
      refine ⟨_, .single (a := .runner .copy) ?_⟩
      rw [Sys.copyBlock, if_neg hlast] at hstep
      exact hstep

/-- A store that nothing interrupts is one completed conversion. -/
theorem run_of_store {b : Board} {tr : List (Sys × SysAct)} {size : ℕ} (h : SysRun k b tr s)
    (halive : s.dead = false) (hrunner : s.runner = .returned msg size (some p)) :
    ∃ tr' s', Run (PrioStep k) s tr' s' ∧ s'.runner = .top ∧
      ResultStep s.dev (.convert (MSG_FOR_FIRST msg.code) (p.source s.dev)) s'.dev := by
  have hstep : PrioStep k s (.runner .store) (s.beginStore msg size p) :=
    prioStep_runner halive (by simp [Sys.runnerStep, hrunner])
  obtain rfl : size = s.dev.In.mSize / 2 := halfInHand_run h size (by rw [hrunner]; rfl)
  cases hfirst : MSG_FOR_FIRST msg.code with
  | true =>
    rw [Sys.beginStore, hfirst, if_pos rfl] at hstep
    obtain ⟨tr, hr⟩ := run_of_copies (k := k) (s := { s with
      dev := { s.dev with Out := s.dev.Out.setModified }
      runner := .copying msg p s.dev.Out.data (s.dev.Out.modifySize (s.dev.In.mSize / 2) / 2) 0 })
      halive rfl
    refine ⟨_, _, (Run.single hstep).append hr, rfl, ?_⟩
    rw [ResultStep, SampleBuffer.stored, if_pos rfl]
    rfl
  | false =>
    rw [Sys.beginStore, hfirst, if_neg (by simp)] at hstep
    obtain ⟨tr, hr⟩ := run_of_copies (k := k) (s := { s with
      dev := { s.dev with Out := s.dev.Out.setMidmodified }
      runner := .copying msg p s.dev.Out.middata
        (s.dev.Out.midmodifySize (s.dev.In.mSize / 2) / 2) 0 }) halive rfl
    refine ⟨_, _, (Run.single hstep).append hr, rfl, ?_⟩
    rw [ResultStep, SampleBuffer.stored, if_neg (by simp)]
    rfl

end Stores

/-! ### All other steps -/

section Others

variable {k : Layout} {s s' : Sys} {a : SysAct}

/-- Seen from a run with results, stores apart. -/
theorem resultStep_of_sysStep (hreset : s.dev.mMailbox.reset = false)
    (h : sysStep k s a = some s') (hcomm : a ≠ .comm) (hstore : a ≠ .runner .store) :
    (∃ bytes, ResultStep s.dev (.host bytes) s'.dev) ∨ ResultStep s.dev .env s'.dev := by
  rcases env_of_sysStep hreset h with hc | ⟨bytes, rfl⟩ | ⟨henv, -⟩
  · exact absurd hc hcomm
  · exact .inl ⟨bytes, rfl⟩
  refine .inr ⟨henv.toRely, ?_⟩
  by_cases hdac : ∃ full, a = .dac full
  · obtain ⟨full, rfl⟩ := hdac
    obtain ⟨-, rfl⟩ := act_dac (sysStep_act h)
    rfl
  · exact (kept_sysStep h hcomm hstore (not_exists.mp hdac)).outModified

/-- Seen from a run with playback, where an event is of the half that is being played. -/
theorem playbackStep_of_sysStep (nextFull : Bool) (hreset : s.dev.mMailbox.reset = false)
    (h : sysStep k s a = some s') (hcomm : a ≠ .comm) (hdac : a ≠ .dac !nextFull) :
    (a = .dac nextFull ∧ PlaybackStep ⟨s.dev, nextFull⟩ .dac ⟨s'.dev, !nextFull⟩) ∨
      (∃ bytes, PlaybackStep ⟨s.dev, nextFull⟩ (.host bytes) ⟨s'.dev, nextFull⟩) ∨
      PlaybackStep ⟨s.dev, nextFull⟩ .env ⟨s'.dev, nextFull⟩ := by
  by_cases hevent : a = .dac nextFull
  · subst hevent
    obtain ⟨hrun, rfl⟩ := act_dac (sysStep_act h)
    exact .inl ⟨rfl, playbackStep_dac hrun⟩
  rcases env_of_sysStep hreset h with hc | ⟨bytes, rfl⟩ | ⟨henv, -⟩
  · exact absurd hc hcomm
  · exact .inr (.inl ⟨bytes, rfl⟩)
  refine .inr (.inr ⟨henv.toRely, ?_, rfl⟩)
  by_cases hstore : a = .runner .store
  · subst hstore
    obtain ⟨msg, size, p, -, rfl⟩ := act_store (sysStep_act h)
    unfold Sys.beginStore
    dsimp only
    split
    · rfl
    · rfl
  · refine (kept_sysStep h hcomm hstore fun full hfull => ?_).dacIsDone
    rcases Bool.eq_or_eq_not full nextFull with rfl | rfl
    · exact hevent hfull
    · exact hdac hfull

end Others

end Stmdsp
