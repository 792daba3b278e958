import Stmdsp.Proofs.Images
import Stmdsp.Proofs.RunnerSteps

/-! Where `abort` can find the runner, and what it overwrites there: an instruction of the
algorithm, or one of the firmware's own in flash. -/

namespace Stmdsp

open ELFManager (userBase userSize store_outside)

/-- An instruction in the algorithm's memory. The stacked program counter is even. -/
def inUserCode (pc : UInt32) : Bool :=
  decide ((pc - userBase).toNat < userSize) && decide (pc.toNat % 2 = 0)

/-- Where the algorithm is, or goes on after a system call. -/
def Runner.userPc : Runner → Option UInt32
  | .user _ _ ctx => some ctx.pc
  | .syscall _ _ ctx _ _ => some ctx.pc
  | _ => none

/-- Where a step of the runner takes the algorithm. -/
def SysAct.userPc : SysAct → Option UInt32
  | .runner (.call ctx) => some ctx.pc
  | .runner (.startTimer _ ctx) => some ctx.pc
  | .runner (.compute ctx _) => some ctx.pc
  | _ => none

/-- In `threadRunner`, `modify` or `midmodify`, or at a timer call of `threadRunner`, which
begins and ends there. -/
def Runner.inFlash : Runner → Bool
  | .top => true
  | .received _ => true
  | .starting _ _ => true
  | .stopping _ _ _ => true
  | .returned _ _ _ => true
  | .copying _ _ _ _ _ => true
  | _ => false

/-- What `abort` can find in the runner's stack: the algorithm's context, or any
instruction of the runner's code in flash. -/
def Found (k : Layout) (r : Runner) (ctx : Context) : Prop :=
  isRunnerStack k.runnerStack ctx.psp = true ∧
    ((∃ msg size, r = .user msg size ctx) ∨ r.inFlash = true ∧ readOnly ctx.pc = true)

/-- The "bx lr" is written into the algorithm's memory, and without a fault. -/
structure PatchesUserCode (k : Layout) (ctx : Context) : Prop where
  inside : Window.Within ⟨ctx.pc, 2⟩ userBase userSize
  noFault : ∀ fpuStacked d, (ConversionManager.resetRunner k fpuStacked (some ctx) d).2 ≠ .fault
  memory : ∀ fpuStacked d a, ¬ Window.Covers ⟨userBase, userSize⟩ a →
    (ConversionManager.resetRunner k fpuStacked (some ctx) d).1.mem a = d.mem a

section Points

variable {k : Layout} {s s' : Sys} {a : SysAct} {ctx : Context} {pc : UInt32}

theorem inUserCode_iff :
    inUserCode pc = true ↔ 0x10000000 ≤ pc.toNat ∧ pc.toNat < 0x10008000 ∧ pc.toNat % 2 = 0 := by
  have hlt := pc.toNat_lt
  have hb : userBase.toNat = 0x10000000 := rfl
  have hs : userSize = 0x8000 := rfl
  simp only [inUserCode, Bool.and_eq_true, decide_eq_true_eq, UInt32.toNat_sub, hb, hs]
  omega

theorem executable_of_userCode (h : inUserCode pc = true) : executable pc = true := by
  rw [inUserCode_iff] at h
  simp only [executable, Bool.or_eq_true, Bool.and_eq_true, decide_eq_true_eq,
    UInt32.le_iff_toNat_le, UInt32.lt_iff_toNat_lt, UInt32.reduceToNat]
  omega

/-- What the model's exceptions find is among it. -/
theorem found_of_context (hctx : s.runner.context k = some ctx)
    (hs : isRunnerStack k.runnerStack ctx.psp = true) : Found k s.runner ctx := by
  have hflash := k.thread_in_flash
  refine ⟨hs, ?_⟩
  cases hr : s.runner with
  | user msg size c =>
    rw [hr] at hctx
    obtain rfl := Option.some.inj hctx
    exact .inl ⟨msg, size, rfl⟩
  | waiting =>
    rw [hr] at hctx
    cases hctx
  | starting _ _ | syscall _ _ _ _ _ | stopping _ _ _ =>
    rw [hr] at hctx
    obtain rfl := Option.some.inj hctx
    rw [k.supervisor_apart] at hs
    cases hs
  | _ =>
    rw [hr] at hctx
    obtain rfl := Option.some.inj hctx
    exact .inr ⟨rfl, hflash⟩

theorem patches_userCode (hcode : inUserCode ctx.pc = true) : PatchesUserCode k ctx := by
  have hx := executable_of_userCode hcode
  have hinside : Window.Within ⟨ctx.pc, 2⟩ userBase userSize := by
    have hpc := inUserCode_iff.mp hcode
    have hb : userBase.toNat = 0x10000000 := rfl
    have hsize : userSize = 0x8000 := rfl
    rw [Window.within_iff (by decide)]
    simp only [UInt32.toNat_sub, hb, hsize]
    omega
  refine ⟨hinside, fun fpuStacked d => ?_, fun fpuStacked d a ha => ?_⟩
  · rw [Ne, resetRunner_fault_iff, k.writeFaults_executable _ hx]
    simp
  · have hout : ¬ Window.Covers ⟨ctx.pc, 2⟩ a := fun hin => ha (hinside a hin)
    simp only [ConversionManager.resetRunner, hx, if_true]
    split
    · split
      · rfl
      · exact store_outside hout
    · rfl

theorem not_patches_flash (hs : isRunnerStack k.runnerStack ctx.psp = true)
    (hflash : readOnly ctx.pc = true) : ¬ PatchesUserCode k ctx := by
  intro h
  apply h.noFault true (powerUp default)
  rw [resetRunner_fault_iff]
  exact ⟨hs, k.writeFaults_readOnly _ hflash⟩

/-! ### Where the algorithm is -/

theorem moveStack_userPc (newpsp : UInt32) (r : Runner) : (r.moveStack newpsp).userPc = r.userPc := by
  cases r <;> rfl

theorem RunnerMove.userPc {x : RunnerAct} (h : RunnerMove k s x s')
    (hpc : s'.runner.userPc = some pc) :
    s.runner.userPc = some pc ∨ (SysAct.runner x).userPc = some pc := by
  cases h with
  | call msg size ctx _ _ => exact .inr hpc
  | startTimer msg size now ctx _ => exact .inr hpc
  | compute msg size was ctx w _ => exact .inr hpc
  | svc msg size ctx n r0 hr => exact .inl (by rwa [hr])
  | svcReturn msg size ctx n r0 now d hr _ => exact .inl (by rwa [hr])
  | store msg size samples _ =>
    obtain ⟨base, srcend, hr⟩ := beginStore_runner (s := s) msg size samples
    simp [hr, Runner.userPc] at hpc
  | copy msg samples base srcend w _ =>
    rcases copyBlock_runner (s := s) msg samples base srcend w with hr | hr
    · simp [hr, Runner.userPc] at hpc
    · simp [hr, Runner.userPc] at hpc
  | _ => simp [Runner.userPc] at hpc

theorem userPc_step (h : sysStep k s a = some s') (hpc : s'.runner.userPc = some pc) :
    s.runner.userPc = some pc ∨ a.userPc = some pc := by
  cases ha : a.runnerAct with
  | some x =>
    obtain rfl := eq_runner_of_runnerAct ha
    exact (runnerStep_moves (sysStep_act h)).userPc hpc
  | none =>
    rcases runner_of_foreign ha h with ⟨newpsp, hr⟩ | hr | ⟨hr, -⟩
    · rw [hr, moveStack_userPc] at hpc
      exact .inl hpc
    · rw [hr] at hpc
      exact .inl hpc
    · simp [hr, Runner.userPc] at hpc

/-- In a run that keeps the algorithm in its memory, it is there in every state. -/
theorem userCode_run {b : Board} {tr : List (Sys × SysAct)} (h : SysRun k b tr s)
    (hcode : ∀ p ∈ tr, ∀ pc, p.2.userPc = some pc → inUserCode pc = true) :
    ∀ p ∈ tr, ∀ pc, p.1.runner.userPc = some pc → inUserCode pc = true := by
  have hguarded : Run (fun s a s' => PrioStep k s a s' ∧
      ∀ pc, a.userPc = some pc → inUserCode pc = true) (boot b) tr s := h.guarded hcode
  have hboot : ∀ pc, (boot b).runner.userPc = some pc → inUserCode pc = true := by
    simp [boot, Runner.userPc]
  refine hguarded.invariant_mem
    (I := fun s => ∀ pc, s.runner.userPc = some pc → inUserCode pc = true) hboot ?_
  intro t x t' hinv hstep pc hpc
  exact (userPc_step hstep.1.2 hpc).elim (hinv pc) (hstep.2 pc)

end Points

/-- In every run in which the algorithm stays in its memory: every abort that finds the
runner's stack overwrites an instruction of the algorithm, exactly if none of them comes
while the runner is in `threadRunner`, `modify` or `midmodify`. -/
theorem abort_patches_iff {k : Layout} {b : Board} {tr : List (Sys × SysAct)} {s : Sys}
    (h : SysRun k b tr s)
    (hcode : ∀ p ∈ tr, ∀ pc, p.2.userPc = some pc → inUserCode pc = true) :
    (∀ p ∈ tr, CallsAbort p.1 p.2 → ∀ ctx, Found k p.1.runner ctx → PatchesUserCode k ctx) ↔
      ∀ p ∈ tr, CallsAbort p.1 p.2 → p.1.runner.inFlash = false := by
  constructor
  · intro hpatches p hp habort
    by_contra hflash
    rw [Bool.not_eq_false] at hflash
    refine not_patches_flash k.thread_on_stack k.thread_in_flash
      (hpatches p hp habort ⟨k.threadPsp, k.threadPc⟩ ?_)
    exact ⟨k.thread_on_stack, .inr ⟨hflash, k.thread_in_flash⟩⟩
  · rintro huser p hp habort ctx ⟨-, ⟨msg, size, hr⟩ | ⟨hflash, -⟩⟩
    · exact patches_userCode (userCode_run h hcode p hp ctx.pc (by rw [hr]; rfl))
    · rw [huser p hp habort] at hflash
      cases hflash

/-- An algorithm that runs in its memory, up to its first call. -/
def codeSession : List SysAct :=
  algorithmStart.append
    [.adc fun _ => 7, .monitor, .runner .receive, .runner (.call ⟨0x20017A00, 0x10000000⟩)]

/-- No step of the schedule takes the algorithm elsewhere. -/
def staysInCode (acts : List SysAct) : Bool := acts.all fun a => a.userPc.all inUserCode

theorem userPc_of_staysInCode {tr : List (Sys × SysAct)} (h : staysInCode (tr.map Prod.snd) = true) :
    ∀ p ∈ tr, ∀ pc, p.2.userPc = some pc → inUserCode pc = true := by
  intro p hp pc hpc
  rw [staysInCode, List.all_map, List.all_eq_true] at h
  have hall := h p hp
  simpa [hpc] using hall

/-- A fault in the algorithm. -/
theorem abort_patches_iff_fault :
    ∃ tr t s, SysRun default default (tr ++ [(t, .memFault 0xFFFFFFFD)]) s ∧
      Found default t.runner ⟨0x20017A00, 0x10000000⟩ ∧
      PatchesUserCode default ⟨0x20017A00, 0x10000000⟩ := by
  obtain ⟨tr, t, hr, hacts, hquiet, hp⟩ := exists_run_without_abort default default codeSession
    (fun t => t.runner == .user ⟨1, 1⟩ 1 ⟨0x20017A00, 0x10000000⟩ &&
      (sysStep default t (.memFault 0xFFFFFFFD)).isSome) (by decide +kernel)
  simp only [Bool.and_eq_true, beq_iff_eq, Option.isSome_iff_exists] at hp
  obtain ⟨hrun, s, hs⟩ := hp
  have hfound : Found default t.runner ⟨0x20017A00, 0x10000000⟩ := ⟨by decide, .inl ⟨_, _, hrun⟩⟩
  have hall : ∀ p ∈ tr ++ [(t, SysAct.memFault 0xFFFFFFFD)],
      CallsAbort p.1 p.2 → p.1.runner.inFlash = false := by
    intro p hp habort
    rcases List.mem_append.mp hp with hp | hp
    · exact absurd habort (hquiet p hp)
    · rw [List.mem_singleton.mp hp, hrun]
      rfl
  have hsys : SysRun default default (tr ++ [(t, .memFault 0xFFFFFFFD)]) s := hr.snoc ⟨rfl, hs⟩
  have hstays : staysInCode ((tr ++ [(t, SysAct.memFault 0xFFFFFFFD)]).map Prod.snd) = true := by
    have hacts' : staysInCode (codeSession ++ [.memFault 0xFFFFFFFD]) = true := by decide
    rwa [List.map_append, hacts]
  exact ⟨tr, t, s, hsys, hfound, (abort_patches_iff hsys (userPc_of_staysInCode hstays)).mpr hall
    (t, .memFault 0xFFFFFFFD) (by simp) trivial _ hfound⟩

/-- Events 2 and 3 are posted while the algorithm is at work, and event 4 finds the
overrun when its result is being stored. -/
def copySession : List SysAct :=
  codeSession.append
    [.adc fun _ => 8, .adc fun _ => 9, .runner (.ret (some (.input 0))), .runner .store]

/-- The recovery writes to flash, and faults. -/
theorem abort_patches_flash :
    ∃ tr s s', SysRun default default tr s ∧ staysInCode (tr.map Prod.snd) = true ∧
      CallsAbort s (.adc fun _ => 10) ∧ PrioStep default s (.adc fun _ => 10) s' ∧
      Found default s.runner ⟨0x20017B00, 0x0807F800⟩ ∧
      ¬ PatchesUserCode default ⟨0x20017B00, 0x0807F800⟩ ∧ s'.dead = true := by
  obtain ⟨tr, s, hr, hacts, hp⟩ := exists_run_of_exec default default copySession
    (fun s => s.runner.inFlash && (ADC.serveDmaInterrupt (fun _ => 10) s.dev).2 &&
      (sysStep default s (.adc fun _ => 10)).any fun s' => s'.dead) (by decide +kernel)
  simp only [Bool.and_eq_true, Option.any_eq_true] at hp
  obtain ⟨⟨hflash, habort⟩, s', hs, hdead⟩ := hp
  refine ⟨tr, s, s', hr, ?_, habort, ⟨rfl, hs⟩, ⟨by decide, .inr ⟨hflash, by decide⟩⟩, ?_, hdead⟩
  · rw [hacts]
    decide
  · exact not_patches_flash (by decide) (by decide)

end Stmdsp
