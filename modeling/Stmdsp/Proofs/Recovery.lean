import Stmdsp.Proofs.Quiescence

/-! What `abort` and the fault handlers make of the runner: when an aborted
invocation is really over, and which faults the firmware recovers from. -/

namespace Stmdsp

/-! ### Where `abort` leaves the runner -/

section Reset

variable {k : Layout} {fpuStacked : Bool} {ctx : Context} {d : Device}

theorem resetRunner_restart (fpuStacked : Bool) (hs : isRunnerStack k.runnerStack ctx.psp = true)
    (hx : executable ctx.pc = true) :
    ∃ newpsp, (ConversionManager.resetRunner k fpuStacked (some ctx) d).2 = .restart newpsp := by
  simp [ConversionManager.resetRunner, hs, k.writeFaults_executable _ hx, hx]

/-- Otherwise the runner does not get to `threadRunner`. -/
theorem resetRunner_stuck
    (h : isRunnerStack k.runnerStack ctx.psp = false ∨ executable ctx.pc = false)
    (newpsp : UInt32) :
    (ConversionManager.resetRunner k fpuStacked (some ctx) d).2 ≠ .restart newpsp := by
  rcases h with h | h
  · simp [ConversionManager.resetRunner, h]
  · simp only [ConversionManager.resetRunner, h]
    split
    · split <;> simp
    · simp

end Reset

/-- `abort` runs: an ADC event finds an overrun, or a memory-management fault is
handled. -/
def AbortStep (k : Layout) (s : Sys) (a : SysAct) (s' : Sys) : Prop :=
  PrioStep k s a s' ∧
    ((∃ capture, a = .adc capture ∧ (ADC.serveDmaInterrupt capture s.dev).2 = true) ∨
      ∃ lr, a = .memFault lr)

/-- The step is the return from `abort`. -/
theorem AbortStep.resume {k : Layout} {s s' : Sys} {a : SysAct} (h : AbortStep k s a s') :
    s.dead = false ∧ ∃ fpuStacked d,
      s' = s.resume (ConversionManager.resetRunner k fpuStacked (s.runner.context k) d).1
        (ConversionManager.resetRunner k fpuStacked (s.runner.context k) d).2 := by
  obtain ⟨⟨-, hs⟩, hab⟩ := h
  have halive := sysStep_alive hs
  refine ⟨halive, ?_⟩
  rcases hab with ⟨capture, rfl, hab⟩ | ⟨lr, rfl⟩
  · obtain ⟨-, ⟨-, h⟩ | ⟨hno, -⟩⟩ := adcStep_cases (sysStep_act hs)
    · exact ⟨true, _, h⟩
    · simp [hab] at hno
  · obtain ⟨ctx, hctx, h⟩ := faultStep_cases (sysStep_act hs)
    rw [hctx]
    exact ⟨_, _, h⟩

/-! ### The runner's next actions -/

def SysAct.runnerAct : SysAct → Option RunnerAct
  | .runner a => some a
  | _ => none

theorem eq_runner_of_runnerAct {a : SysAct} {x : RunnerAct} (h : a.runnerAct = some x) :
    a = .runner x := by
  cases a with
  | runner y => exact congrArg SysAct.runner (Option.some.inj h)
  | _ => cases h

section Waiting

variable {k : Layout} {s s' : Sys}

theorem runnerStep_top {a : RunnerAct} (ht : s.runner = .top) (h : s.runnerStep k a = some s') :
    a = .wait ∧ s'.runner = .waiting := by
  unfold Sys.runnerStep at h
  rw [ht] at h
  cases a <;> simp_all
  rw [← h]

theorem runnerStep_waiting {a : RunnerAct} (hw : s.runner = .waiting)
    (h : s.runnerStep k a = some s') : a = .receive := by
  unfold Sys.runnerStep at h
  rw [hw] at h
  cases a <;> simp_all

theorem runnerStep_wait (h : s.runnerStep k .wait = some s') : s.runner = .top := by
  unfold Sys.runnerStep at h
  cases hrun : s.runner <;> simp_all

theorem commStep_runner (h : s.commStep = some s') : s'.runner = s.runner := by
  unfold Sys.commStep at h
  split at h
  · split at h
    · simp at h
    · cases h
      rfl
  · cases h
    rfl
  · cases h
    rfl
  · split at h
    · cases h
      rfl
    · simp at h

theorem monitorStep_runner (h : s.monitorStep = some s') : s'.runner = s.runner := by
  obtain ⟨mb, monitor, rfl⟩ := monitorStep_cases h
  rfl

/-- At the head of its loop or blocked, the runner comes back from `abort` where it
was. -/
theorem resume_runner (h : s.runner = .top ∨ s.runner = .waiting) (fpuStacked : Bool) (d d' : Device) :
    (s.resume d'
      (ConversionManager.resetRunner k fpuStacked (s.runner.context k) d).2).runner = s.runner := by
  rcases h with h | h
  · cases (ConversionManager.resetRunner k fpuStacked (s.runner.context k) d).2 <;>
      simp [Sys.resume, h, Runner.moveStack]
  · rw [h]
    exact h

/-- Only its own steps take it away from there. -/
theorem runner_of_other {a : SysAct} (h : s.runner = .top ∨ s.runner = .waiting)
    (ha : a.runnerAct = none) (hs : sysStep k s a = some s') : s'.runner = s.runner := by
  replace hs := sysStep_act hs
  cases a with
  | host bytes =>
    cases hs
    rfl
  | comm => exact commStep_runner hs
  | monitor => exact monitorStep_runner hs
  | runner x => simp [SysAct.runnerAct] at ha
  | adc capture =>
    obtain ⟨-, ⟨-, rfl⟩ | ⟨-, rfl⟩⟩ := adcStep_cases hs
    · exact resume_runner h _ _ _
    · rfl
  | dac full =>
    obtain ⟨-, rfl⟩ := act_dac hs
    rfl
  | memFault lr =>
    obtain ⟨ctx, hctx, rfl⟩ := faultStep_cases hs
    rw [MemManage_Handler, ← hctx]
    exact resume_runner h _ _ _
  | hardFault lr =>
    cases hs
    rfl

end Waiting

/-! ### Aborted invocations -/

/-- An invocation is in progress: in the algorithm, or in one of the system calls
it can return from. -/
def Runner.Invoking : Runner → Prop
  | .user _ _ _ => True
  | .starting _ _ => True
  | .stopping _ _ _ => True
  | .syscall _ _ _ n _ => n = 1 ∨ n = 2 ∨ n = 3
  | _ => False

/-- In the algorithm itself, on the runner's own stack and in memory it can run in. -/
def Runner.InAlgorithm (k : Layout) : Runner → Prop
  | .user _ _ ctx => isRunnerStack k.runnerStack ctx.psp = true ∧ executable ctx.pc = true
  | _ => False

/-- An invocation is in the algorithm or on the supervisor stack. -/
theorem Runner.Invoking.context {k : Layout} {r : Runner} (h : r.Invoking) :
    (∃ msg size ctx, r = .user msg size ctx) ∨
      (r ≠ .top ∧ r.context k = some ⟨k.supervisorPsp, 0⟩ ∧ ¬ r.InAlgorithm k) := by
  cases r with
  | user msg size ctx => exact .inl ⟨msg, size, ctx, rfl⟩
  | starting msg size => exact .inr ⟨by simp, rfl, id⟩
  | stopping msg size samples => exact .inr ⟨by simp, rfl, id⟩
  | syscall msg size ctx n r0 => exact .inr ⟨by simp, rfl, id⟩
  | _ => exact absurd h id

/-- An ELF file with the two bytes of a "bx lr" to load at its entry 0x10000000. -/
def smallElf : List UInt8 :=
  [0x7F, 0x45, 0x4C, 0x46] ++ List.replicate 20 0 ++ [1, 0, 0, 0x10, 52, 0, 0, 0] ++
    List.replicate 10 0 ++ [32, 0, 1, 0] ++ List.replicate 6 0 ++
    [1, 0, 0, 0, 84, 0, 0, 0, 0, 0, 0, 0x10, 0, 0, 0, 0, 2, 0, 0, 0, 2, 0, 0, 0] ++
    List.replicate 8 0 ++ bxLr

def algorithmContext : Context := ⟨0x20017A00, 0x10000001⟩

/-- Buffers of two samples, the algorithm above, and the start of a conversion. -/
def algorithmStart : List SysAct :=
  .runner .wait :: .host (['B'.toUInt8, 1, 0, 'E'.toUInt8, 86, 0] ++ smallElf ++ ['R'.toUInt8]) ::
    List.replicate 41 .comm

/-- The first call of the algorithm. -/
def algorithmSession : List SysAct :=
  algorithmStart.append
    [.adc fun _ => 7, .monitor, .runner .receive, .runner (.call algorithmContext)]

theorem algorithmSession_run :
    ∃ tr s, SysRun default default tr s ∧ tr.map Prod.snd = algorithmSession ∧
      s.dead = false ∧ s.runner = .user ⟨1, 1⟩ 1 algorithmContext := by
  obtain ⟨tr, s, hr, hacts, hp⟩ := exists_run_of_exec default default algorithmSession
    (fun s => !s.dead && s.runner == .user ⟨1, 1⟩ 1 algorithmContext) (by decide +kernel)
  simp only [Bool.and_eq_true, Bool.not_eq_true', beq_iff_eq] at hp
  exact ⟨tr, s, hr, hacts, hp.1, hp.2⟩

/-- `abort` was executed, and the handler returned. -/
def Recovered (s s' : Sys) : Prop :=
  s'.dev.conv = s.dev.conv ++ [.abort] ∧ s'.dead = false

/-- On its own stack at an instruction that even `abort` cannot overwrite, as
`threadRunner`'s own are. -/
def Runner.Unpatchable (k : Layout) (r : Runner) : Prop :=
  ∃ ctx, r.context k = some ctx ∧ isRunnerStack k.runnerStack ctx.psp = true ∧
    k.writeFaults ctx.pc = true

theorem resetRunner_fault_iff {k : Layout} {fpuStacked : Bool} {ctx : Context} {d : Device} :
    (ConversionManager.resetRunner k fpuStacked (some ctx) d).2 = .fault ↔
      isRunnerStack k.runnerStack ctx.psp = true ∧ k.writeFaults ctx.pc = true := by
  by_cases hs : isRunnerStack k.runnerStack ctx.psp = true
  · by_cases hw : k.writeFaults ctx.pc = true
    · simp [ConversionManager.resetRunner, hs, hw]
    · by_cases hx : executable ctx.pc = true <;> simp [ConversionManager.resetRunner, hs, hw, hx]
  · simp [ConversionManager.resetRunner, hs]

theorem resume_dead {s : Sys} {d : Device} {r : Resume} (halive : s.dead = false) :
    (s.resume d r).dead = false ↔ r ≠ .fault := by
  cases r <;> simp [Sys.resume, halive]

/-- A memory-management fault always reaches `abort`. -/
theorem memFault_recovered {k : Layout} {s s' : Sys} {lr : UInt32}
    (hs : sysStep k s (.memFault lr) = some s') :
    Recovered s s' ↔ ¬ s.runner.Unpatchable k := by
  have halive := sysStep_alive hs
  obtain ⟨ctx, hctx, rfl⟩ := faultStep_cases (sysStep_act hs)
  obtain ⟨mem, hd⟩ :=
    resetRunner_dev k (lr &&& 0x10 == 0) (some ctx) (ConversionManager.abort s.dev)
  have hdev := (resume_frame s (MemManage_Handler k lr (some ctx) s.dev).1
    (MemManage_Handler k lr (some ctx) s.dev).2).1.trans hd
  have hconv : (s.resume (MemManage_Handler k lr (some ctx) s.dev).1
      (MemManage_Handler k lr (some ctx) s.dev).2).dev.conv = s.dev.conv ++ [.abort] := by
    rw [hdev]
    rfl
  rw [Recovered, and_iff_right hconv, resume_dead halive, MemManage_Handler,
    Ne, resetRunner_fault_iff]
  simp [Runner.Unpatchable, hctx]

/-- A hard fault reaches `abort` only while no conversion is running, and never
returns. -/
theorem hardFault_outcome {k : Layout} {s s' : Sys} {lr : UInt32}
    (hs : sysStep k s (.hardFault lr) = some s') :
    s'.dead = true ∧ (s.dev.runStatus = .Running ∨ lr &&& 4 = 0 → s'.dev.conv = s.dev.conv) := by
  obtain rfl := Option.some.inj (sysStep_act hs)
  refine ⟨rfl, fun h => ?_⟩
  dsimp only
  rw [HardFault_Handler, if_neg]
  rcases h with h | h <;> simp [h]

theorem running_of_message {k : Layout} {b : Board} {tr : List (Sys × SysAct)} {s : Sys}
    (h : SysRun k b tr s) (hmsg : s.runner.message ≠ none) : s.dev.runStatus = .Running := by
  have hinv := sysInv_run h
  exact hinv.comm.idleStopped.of_not_idle fun hidle => hmsg (hinv.quiet hidle).runner

/-- In every reachable state: while a message is being processed, the firmware
recovers from a fault exactly if it is a memory-management fault at an instruction
that `abort` can overwrite. A hard fault then, or in handler mode, never aborts. -/
theorem fault_recovered_iff {k : Layout} {b : Board} {tr : List (Sys × SysAct)} {s : Sys}
    (h : SysRun k b tr s) :
    (s.runner.message ≠ none → ∀ lr a s', a = .memFault lr ∨ a = .hardFault lr →
      lr &&& 4 ≠ 0 → PrioStep k s a s' →
        (Recovered s s' ↔ a = .memFault lr ∧ ¬ s.runner.Unpatchable k)) ∧
    ∀ lr s', s.runner.message ≠ none ∨ lr &&& 4 = 0 → PrioStep k s (.hardFault lr) s' →
      s'.dev.conv = s.dev.conv := by
  constructor
  · intro _ lr a s' ha _ hs
    rcases ha with rfl | rfl
    · simpa using memFault_recovered hs.2
    · refine iff_of_false (fun hrec => ?_) (by simp)
      have hdead := (hardFault_outcome hs.2).1
      rw [hrec.2] at hdead
      simp at hdead
  · intro lr s' hfault hs
    exact (hardFault_outcome hs.2).2 (hfault.imp_left (running_of_message h))

theorem fault_recovered_iff_fault :
    ∃ tr s, SysRun default default tr s ∧ s.runner.message ≠ none ∧
      ∀ lr a s', a = .memFault lr ∨ a = .hardFault lr → lr &&& 4 ≠ 0 → PrioStep default s a s' →
        (Recovered s s' ↔ a = .memFault lr ∧ ¬ s.runner.Unpatchable default) := by
  obtain ⟨tr, s, hr, -, -, hrun⟩ := algorithmSession_run
  have hmsg : s.runner.message ≠ none := by simp [hrun, Runner.message]
  exact ⟨tr, s, hr, hmsg, (fault_recovered_iff hr).1 hmsg⟩

/-- A hard fault of the algorithm stops the device, and nothing was aborted. -/
theorem hardFault_not_recovered :
    ∃ tr s s', SysRun default default tr s ∧ s.runner = .user ⟨1, 1⟩ 1 algorithmContext ∧
      PrioStep default s (.hardFault 0xFFFFFFFD) s' ∧ s'.dead = true ∧
      s'.dev.conv = s.dev.conv := by
  obtain ⟨tr, s, hr, -, halive, hrun⟩ := algorithmSession_run
  obtain ⟨s', hs⟩ : ∃ s', sysStep default s (.hardFault 0xFFFFFFFD) = some s' := by
    rw [sysStep, if_neg (by simp [halive])]
    exact ⟨_, rfl⟩
  obtain ⟨hdead, hconv⟩ := hardFault_outcome hs
  have hrunning := running_of_message hr (by simp [hrun, Runner.message])
  exact ⟨tr, s, s', hr, hrun, ⟨rfl, hs⟩, hdead, hconv (.inl hrunning)⟩

end Stmdsp
