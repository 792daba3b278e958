import Stmdsp.Proofs.Recovery

/-! The steps of the algorithm runner as one inductive relation, and what all other steps
make of it. -/

namespace Stmdsp

/-- A step of `threadRunner` or the algorithm, with what it needs. -/
inductive RunnerMove (k : Layout) (s : Sys) : RunnerAct → Sys → Prop where
  | wait (h : s.runner = .top) : RunnerMove k s .wait { s with runner := .waiting }
  | receive (msg : Msg) (h : s.runner = .waiting) (hm : s.monitor = .sending msg) :
      RunnerMove k s .receive { s with
        dev := s.dev.logConv (.received msg)
        monitor := .fetching
        runner := .received msg }
  | callMeasured (msg : Msg) (size : ℕ) (ctx : Context) (h : s.runner = .received msg)
      (hm : MSG_FOR_MEASURE msg.code = true) :
      RunnerMove k s (.call ctx) { s with runner := .starting msg size }
  | call (msg : Msg) (size : ℕ) (ctx : Context) (h : s.runner = .received msg)
      (hm : MSG_FOR_MEASURE msg.code = false) :
      RunnerMove k s (.call ctx) { s with runner := .user msg size ctx }
  | noCall (msg : Msg) (size : ℕ) (samples : Ptr) (ctx : Context) (h : s.runner = .received msg) :
      RunnerMove k s (.call ctx) { s with runner := .returned msg size (some samples) }
  | startTimer (msg : Msg) (size : ℕ) (now : UInt32) (ctx : Context)
      (h : s.runner = .starting msg size) :
      RunnerMove k s (.startTimer now ctx) { s with
        dev := startMeasurement now s.dev
        runner := .user msg size ctx }
  | compute (msg : Msg) (size : ℕ) (was ctx : Context) (w : UserWrites)
      (h : s.runner = .user msg size was) :
      RunnerMove k s (.compute ctx w) { s with dev := w.apply s.dev, runner := .user msg size ctx }
  | svc (msg : Msg) (size : ℕ) (ctx : Context) (n r0 : UInt32) (h : s.runner = .user msg size ctx) :
      RunnerMove k s (.svc n r0) { s with runner := .syscall msg size ctx n r0 }
  | svcReturn (msg : Msg) (size : ℕ) (ctx : Context) (n r0 now : UInt32) (d : Device)
      (h : s.runner = .syscall msg size ctx n r0) (hd : port_syscall n r0 now s.dev = some d) :
      RunnerMove k s (.svcReturn now) { s with dev := d, runner := .user msg size ctx }
  | retMeasured (msg : Msg) (size : ℕ) (ctx : Context) (samples : Option Ptr)
      (h : s.runner = .user msg size ctx) (hm : MSG_FOR_MEASURE msg.code = true) :
      RunnerMove k s (.ret samples) { s with runner := .stopping msg size samples }
  | ret (msg : Msg) (size : ℕ) (ctx : Context) (samples : Option Ptr)
      (h : s.runner = .user msg size ctx) (hm : MSG_FOR_MEASURE msg.code = false) :
      RunnerMove k s (.ret samples) { s with runner := .returned msg size samples }
  | stopTimer (msg : Msg) (size : ℕ) (samples : Option Ptr) (now : UInt32)
      (h : s.runner = .stopping msg size samples) :
      RunnerMove k s (.stopTimer now) { s with
        dev := stopMeasurement now s.dev
        runner := .returned msg size samples }
  | store (msg : Msg) (size : ℕ) (samples : Ptr) (h : s.runner = .returned msg size (some samples)) :
      RunnerMove k s .store (s.beginStore msg size samples)
  | copy (msg : Msg) (samples : Ptr) (base srcend w : ℕ)
      (h : s.runner = .copying msg samples base srcend w) :
      RunnerMove k s .copy (s.copyBlock msg samples base srcend w)

section Moves

variable {k : Layout} {s s' : Sys} {a : SysAct} {x : RunnerAct}

theorem beginMessage_moves {msg : Msg} {ctx : Context} (hr : s.runner = .received msg)
    (h : s.beginMessage k msg ctx = some s') : RunnerMove k s (.call ctx) s' := by
  simp only [Sys.beginMessage] at h
  split at h
  · split at h
    · rename_i hm
      cases h
      exact .callMeasured msg _ ctx hr hm
    · rename_i hm
      split at h
      · cases h
        exact .call msg _ ctx hr (by simpa using hm)
      · simp at h
  · cases h
    exact .noCall msg _ _ ctx hr

theorem runnerStep_moves (h : s.runnerStep k x = some s') : RunnerMove k s x s' := by
  unfold Sys.runnerStep at h
  split at h
  · rename_i hr
    cases h
    exact .wait hr
  · rename_i hr
    split at h
    · rename_i msg hm
      cases h
      exact .receive msg hr hm
    · simp at h
  · rename_i msg ctx hr
    exact beginMessage_moves hr h
  · rename_i msg size now ctx hr
    split at h
    · cases h
      exact .startTimer msg size now ctx hr
    · simp at h
  · rename_i msg size was ctx w hr
    cases h
    exact .compute msg size was ctx w hr
  · rename_i msg size ctx n r0 hr
    split at h
    · simp at h
    · cases h
      exact .svc msg size ctx n r0 hr
  · rename_i msg size ctx samples hr
    cases h
    split
    · rename_i hm
      exact .retMeasured msg size ctx samples hr hm
    · rename_i hm
      exact .ret msg size ctx samples hr (by simpa using hm)
  · rename_i msg size ctx n r0 now hr
    split at h
    · rename_i d hd
      cases h
      exact .svcReturn msg size ctx n r0 now d hr hd
    · simp at h
  · rename_i msg size samples now hr
    cases h
    exact .stopTimer msg size samples now hr
  · rename_i msg size samples hr
    cases h
    exact .store msg size samples hr
  · rename_i msg samples base srcend w hr
    cases h
    exact .copy msg samples base srcend w hr
  · simp at h

/-- In a copy loop after `beginStore`. -/
theorem beginStore_runner (msg : Msg) (size : ℕ) (samples : Ptr) :
    ∃ base srcend, (s.beginStore msg size samples).runner = .copying msg samples base srcend 0 := by
  unfold Sys.beginStore
  dsimp only
  split
  · exact ⟨_, _, rfl⟩
  · exact ⟨_, _, rfl⟩

theorem copyBlock_runner (msg : Msg) (samples : Ptr) (base srcend w : ℕ) :
    (s.copyBlock msg samples base srcend w).runner = .top ∨
      (s.copyBlock msg samples base srcend w).runner = .copying msg samples base srcend (w + 8) := by
  simp only [Sys.copyBlock]
  split
  · exact .inr rfl
  · exact .inl rfl

/-! ### The other steps -/

/-- `abort()` is called. -/
def CallsAbort (s : Sys) : SysAct → Prop
  | .adc capture => (ADC.serveDmaInterrupt capture s.dev).2 = true
  | .memFault _ => True
  | .hardFault lr => s.dev.runStatus ≠ .Running ∧ lr &&& 4 ≠ 0
  | _ => False

instance callsAbort_decidable (s : Sys) (a : SysAct) : Decidable (CallsAbort s a) :=
  match a with
  | .adc _ => inferInstanceAs (Decidable (_ = true))
  | .memFault _ => isTrue trivial
  | .hardFault _ => inferInstanceAs (Decidable (_ ∧ _))
  | .host _ => isFalse id
  | .comm => isFalse id
  | .monitor => isFalse id
  | .runner _ => isFalse id
  | .dac _ => isFalse id

/-- From a handler that returns. -/
def Aborting (s : Sys) (a : SysAct) : Prop :=
  (∃ capture, a = .adc capture ∧ (ADC.serveDmaInterrupt capture s.dev).2 = true) ∨
    ∃ lr, a = .memFault lr

theorem context_on_stack {ctx : Context} (hctx : s.runner.context k = some ctx)
    (hs : isRunnerStack k.runnerStack ctx.psp = true) (hx : executable ctx.pc = true) :
    s.runner.InAlgorithm k := by
  have hflash := k.thread_in_flash
  have happart := k.supervisor_apart
  cases hr : s.runner with
  | user msg size c =>
    rw [hr] at hctx
    obtain rfl := Option.some.inj hctx
    exact ⟨hs, hx⟩
  | waiting =>
    rw [hr] at hctx
    cases hctx
  | starting _ _ | syscall _ _ _ _ _ | stopping _ _ _ =>
    rw [hr] at hctx
    obtain rfl := Option.some.inj hctx
    rw [happart] at hs
    cases hs
  | _ =>
    rw [hr] at hctx
    obtain rfl := Option.some.inj hctx
    rw [readOnly_of_executable hx] at hflash
    cases hflash

/-- The return from `abort` leaves the runner where it was, moves its stack, or restarts
it; the latter only in the algorithm. -/
theorem resume_reset_runner (fpuStacked : Bool) (ctx : Option Context) (d d' : Device)
    (hctx : s.runner.context k = ctx) :
    let t := s.resume d' (ConversionManager.resetRunner k fpuStacked ctx d).2
    (∃ newpsp, t.runner = s.runner.moveStack newpsp) ∨ t.runner = s.runner ∨
      t.runner = .top ∧ s.runner.InAlgorithm k := by
  cases hr : (ConversionManager.resetRunner k fpuStacked ctx d).2 with
  | untouched => exact .inr (.inl rfl)
  | fault => exact .inr (.inl rfl)
  | again newpsp => exact .inl ⟨newpsp, rfl⟩
  | restart newpsp =>
    refine .inr (.inr ⟨rfl, ?_⟩)
    cases ctx with
    | none => simp [ConversionManager.resetRunner] at hr
    | some c =>
      by_cases hstuck : isRunnerStack k.runnerStack c.psp = false ∨ executable c.pc = false
      · exact absurd hr (resetRunner_stuck hstuck newpsp)
      · simp only [not_or, Bool.not_eq_false] at hstuck
        exact context_on_stack hctx hstuck.1 hstuck.2

/-- A step of another party restarts the runner only by an abort in the algorithm. -/
theorem runner_of_foreign (ha : a.runnerAct = none) (h : sysStep k s a = some s') :
    (∃ newpsp, s'.runner = s.runner.moveStack newpsp) ∨ s'.runner = s.runner ∨
      s'.runner = .top ∧ Aborting s a ∧ s.runner.InAlgorithm k := by
  replace h := sysStep_act h
  cases a with
  | host bytes =>
    cases h
    exact .inr (.inl rfl)
  | comm => exact .inr (.inl (commStep_runner h))
  | monitor => exact .inr (.inl (monitorStep_runner h))
  | runner x => simp [SysAct.runnerAct] at ha
  | adc capture =>
    obtain ⟨-, ⟨habort, rfl⟩ | ⟨-, rfl⟩⟩ := adcStep_cases h
    · rcases resume_reset_runner true _ _ _ rfl with hm | hs | ⟨ht, hin⟩
      · exact .inl hm
      · exact .inr (.inl hs)
      · exact .inr (.inr ⟨ht, .inl ⟨capture, rfl, habort⟩, hin⟩)
    · exact .inr (.inl rfl)
  | dac full =>
    obtain ⟨-, rfl⟩ := act_dac h
    exact .inr (.inl rfl)
  | memFault lr =>
    obtain ⟨ctx, hctx, rfl⟩ := faultStep_cases h
    rw [MemManage_Handler]
    rcases resume_reset_runner (lr &&& 0x10 == 0) _ _ _ hctx with hm | hs | ⟨ht, hin⟩
    · exact .inl hm
    · exact .inr (.inl hs)
    · exact .inr (.inr ⟨ht, .inr ⟨lr, rfl⟩, hin⟩)
  | hardFault lr =>
    cases h
    exact .inr (.inl rfl)

/-- And such an abort always does. -/
theorem restart_of_aborting (h : sysStep k s a = some s') (hab : Aborting s a)
    (hin : s.runner.InAlgorithm k) : s'.runner = .top := by
  cases hr : s.runner with
  | user msg size ctx =>
    rw [hr] at hin
    have hctx : s.runner.context k = some ctx := by rw [hr]; rfl
    have hreset : ∀ fpuStacked d, ∃ newpsp,
        (ConversionManager.resetRunner k fpuStacked (some ctx) d).2 = .restart newpsp :=
      fun fpuStacked _ => resetRunner_restart fpuStacked hin.1 hin.2
    rcases hab with ⟨capture, rfl, habort⟩ | ⟨lr, rfl⟩
    · obtain ⟨-, ⟨-, rfl⟩ | ⟨hno, -⟩⟩ := adcStep_cases (sysStep_act h)
      · rw [hctx]
        obtain ⟨newpsp, he⟩ := hreset true (ADC.serveDmaInterrupt capture s.dev).1
        rw [he]
        rfl
      · simp [habort] at hno
    · obtain ⟨c, hc, rfl⟩ := faultStep_cases (sysStep_act h)
      obtain rfl := Option.some.inj (hctx.symm.trans hc)
      obtain ⟨newpsp, he⟩ := hreset (lr &&& 0x10 == 0) (ConversionManager.abort s.dev)
      rw [MemManage_Handler, he]
      rfl
  | _ =>
    rw [hr] at hin
    exact absurd hin id

theorem Aborting.calls (h : Aborting s a) : CallsAbort s a := by
  rcases h with ⟨capture, rfl, habort⟩ | ⟨lr, rfl⟩
  · exact habort
  · trivial

end Moves

/-- A schedule that executes from power-up, without an abort, is such a run. -/
theorem exists_run_without_abort (k : Layout) (b : Board) (acts : List SysAct) (p : Sys → Bool)
    (h : (execGuarded (fun s a => allowed s a && !decide (CallsAbort s a)) k (boot b) acts).any p =
      true) :
    ∃ tr s, SysRun k b tr s ∧ tr.map Prod.snd = acts ∧ (∀ q ∈ tr, ¬ CallsAbort q.1 q.2) ∧
      p s = true := by
  obtain ⟨s, hs, hp⟩ := (Option.any_eq_true _ _).mp h
  obtain ⟨tr, hr, hacts⟩ := run_of_exec hs
  have hguard : ∀ q ∈ tr, ¬ CallsAbort q.1 q.2 :=
    hr.forall_steps fun _ _ _ hstep => by simpa using (Bool.and_eq_true_iff.mp hstep.1).2
  have hrun : SysRun k b tr s :=
    hr.mono fun _ _ _ hstep => ⟨(Bool.and_eq_true_iff.mp hstep.1).1, hstep.2⟩
  exact ⟨tr, s, hrun, hacts, hguard, hp⟩

end Stmdsp
