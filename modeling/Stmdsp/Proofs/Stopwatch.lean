import Stmdsp.Lib.Since
import Stmdsp.Proofs.RunnerSteps

/-! The execution time the firmware reports: one field that holds the start of a measured
invocation, and from its stop call on its duration. -/

namespace Stmdsp

open Proc

/-! ### Measured invocations in a history -/

/-- The message of a measured invocation, between its start and its stop call. -/
def Runner.measuring : Runner → Option Msg
  | .user msg _ _ => if MSG_FOR_MEASURE msg.code then some msg else none
  | .syscall msg _ _ _ _ => if MSG_FOR_MEASURE msg.code then some msg else none
  | .stopping msg _ _ => some msg
  | _ => none

/-- The counter value at a start call. -/
def SysAct.starts : SysAct → Option UInt32
  | .runner (.startTimer now _) => some now
  | _ => none

/-- And at a stop call. -/
def SysAct.stops : SysAct → Option UInt32
  | .runner (.stopTimer now) => some now
  | _ => none

/-- The invocation for `msg` made its start call at `start`, and goes on. -/
def Timing (tr : List (Sys × SysAct)) (msg : Msg) (start : UInt32) : Prop :=
  ∃ l s a l', tr = l ++ (s, a) :: l' ∧ a.starts = some start ∧ s.runner.message = some msg ∧
    ∀ p ∈ l', p.1.runner.measuring = some msg ∧ p.2.starts = none ∧ p.2.stops = none

/-- The most recently completed measured invocation made its calls at `start` and `stop`. -/
def Completed (tr : List (Sys × SysAct)) (start stop : UInt32) : Prop :=
  ∃ l s a l' msg, tr = l ++ (s, a) :: l' ∧ Timing l msg start ∧ s.runner.measuring = some msg ∧
    a.stops = some stop ∧ ∀ p ∈ l', p.2.stops = none

/-- Its duration, without what measuring takes. -/
def execTime (offset start stop : UInt32) : UInt32 :=
  let cycles := stop - start - offset
  if cycles > measurementOverhead then cycles - measurementOverhead else cycles

/-- What there is to report. -/
def Readout (offset : UInt32) (tr : List (Sys × SysAct)) (v : UInt32) : Prop :=
  ((∀ p ∈ tr, p.2.stops = none) ∧ v = 0) ∨
    ∃ start stop, Completed tr start stop ∧ v = execTime offset start stop

/-- The counter value at the last start call, with no stop call behind it. -/
def RawStart (tr : List (Sys × SysAct)) (v : UInt32) : Prop :=
  ∃ l s a l', tr = l ++ (s, a) :: l' ∧ a.starts = some v ∧
    ∀ p ∈ l', p.2.starts = none ∧ p.2.stops = none

/-- An abort or fault restarts the runner inside a measured invocation. -/
def Cut (k : Layout) (p : Sys × SysAct) : Prop :=
  Aborting p.1 p.2 ∧ p.1.runner.InAlgorithm k ∧ p.1.runner.measuring ≠ none

def TimerStarted (p : Sys × SysAct) : Prop := p.2.starts ≠ none

section History

variable {tr : List (Sys × SysAct)} {msg : Msg} {start stop offset v : UInt32} {p : Sys × SysAct}

theorem Timing.snoc (h : Timing tr msg start) (hm : p.1.runner.measuring = some msg)
    (hstart : p.2.starts = none) (hstop : p.2.stops = none) : Timing (tr ++ [p]) msg start := by
  obtain ⟨l, s, a, l', rfl, ha, hs, hl⟩ := h
  refine ⟨l, s, a, l' ++ [p], by simp, ha, hs, List.forall_mem_append.mpr ⟨hl, ?_⟩⟩
  rw [List.forall_mem_singleton]
  exact ⟨hm, hstart, hstop⟩

theorem Timing.raw (h : Timing tr msg start) : RawStart tr start := by
  obtain ⟨l, s, a, l', heq, ha, -, hl⟩ := h
  exact ⟨l, s, a, l', heq, ha, fun p hp => (hl p hp).2⟩

theorem RawStart.snoc (h : RawStart tr v) (hstart : p.2.starts = none) (hstop : p.2.stops = none) :
    RawStart (tr ++ [p]) v := by
  obtain ⟨l, s, a, l', rfl, ha, hl⟩ := h
  refine ⟨l, s, a, l' ++ [p], by simp, ha, List.forall_mem_append.mpr ⟨hl, ?_⟩⟩
  rw [List.forall_mem_singleton]
  exact ⟨hstart, hstop⟩

theorem Readout.snoc (h : Readout offset tr v) (hstop : p.2.stops = none) :
    Readout offset (tr ++ [p]) v := by
  have hlast : ∀ q ∈ [p], q.2.stops = none := List.forall_mem_singleton.mpr hstop
  rcases h with ⟨hnone, rfl⟩ | ⟨start, stop, ⟨l, s, a, l', msg, rfl, ht, hm, ha, hl⟩, rfl⟩
  · exact .inl ⟨List.forall_mem_append.mpr ⟨hnone, hlast⟩, rfl⟩
  · refine .inr ⟨start, stop, ⟨l, s, a, l' ++ [p], msg, by simp, ht, hm, ha, ?_⟩, rfl⟩
    exact List.forall_mem_append.mpr ⟨hl, hlast⟩

theorem Timing.readout {s : Sys} {a : SysAct} (h : Timing tr msg start)
    (hm : s.runner.measuring = some msg) (ha : a.stops = some stop) :
    Readout offset (tr ++ [(s, a)]) (execTime offset start stop) :=
  .inr ⟨start, stop, ⟨tr, s, a, [], msg, rfl, h, hm, ha, by simp⟩, rfl⟩

end History

/-! ### What writes the field -/

structure SameTimer (d d' : Device) : Prop where
  tmLast : d'.tmLast = d.tmLast
  tmOffset : d'.tmOffset = d.tmOffset

/-- What is left of a handler; of 'm' it is all or nothing. -/
def HandlerInv (s : Sys) : Prop :=
  ∀ c rest, s.comm = .running c rest → Keeps (HandlerStep c) rest ∧
    (c = 'm'.toUInt8 → rest = readExecTime ∨ rest = .done ())

section Steps

variable {k : Layout} {s s' : Sys} {a : SysAct} {d d' : Device}

theorem sameTimer_handlerStep {c : UInt8} (h : HandlerStep c d d') : SameTimer d d' := by
  cases h with
  | _ => exact ⟨rfl, rfl⟩

theorem HandlerInv.commStep (h : HandlerInv s) (hs : s.commStep = some s') :
    HandlerInv s' ∧ SameTimer s.dev s'.dev := by
  unfold Sys.commStep at hs
  split at hs
  · split at hs
    · simp at hs
    · cases hs
      refine ⟨?_, rfl, rfl⟩
      intro c rest hc
      obtain ⟨rfl, rfl⟩ := Comm.running.inj hc
      refine ⟨steps_dispatch _, fun hm => ?_⟩
      rw [hm]
      exact .inl rfl
  · cases hs
    exact ⟨fun c rest hc => by simp at hc, rfl, rfl⟩
  · cases hs
    exact ⟨h, rfl, rfl⟩
  · rename_i c g u next hcomm
    split at hs
    · rename_i hg
      cases hs
      obtain ⟨hkeeps, hm⟩ := h c _ hcomm
      obtain ⟨hstep, hnext⟩ := hkeeps s.dev hg
      refine ⟨?_, sameTimer_handlerStep hstep⟩
      intro c' rest hc
      obtain ⟨rfl, rfl⟩ := Comm.running.inj hc
      refine ⟨hnext, fun hc => ?_⟩
      rcases hm hc with hread | hdone
      · obtain ⟨-, -, rfl⟩ := Proc.step.inj hread
        exact .inr rfl
      · cases hdone
    · simp at hs

theorem sameTimer_call (o : Operation) (buffer : Option ℕ) (d : Device) :
    SameTimer d (o.call buffer d).1 := by
  cases o with
  | adcReadHandler =>
    simp only [Operation.call, ConversionManager.adcReadHandler, ConversionManager.postHalf]
    split
    · exact ⟨rfl, rfl⟩
    · split <;> exact ⟨rfl, rfl⟩
  | adcReadHandlerMeasure =>
    simp only [Operation.call, ConversionManager.adcReadHandlerMeasure, ConversionManager.postHalf]
    split <;> exact ⟨rfl, rfl⟩

theorem sameTimer_callback (d : Device) : SameTimer d (ADC.conversionCallback d).1 := by
  cases hop : d.adc.mOperation with
  | none =>
    rw [ADC.conversionCallback, hop]
    exact ⟨rfl, rfl⟩
  | some o =>
    obtain ⟨buffer, he⟩ := callback_some hop
    rw [he]
    exact sameTimer_call o buffer d

theorem sameTimer_serve (capture : Storage) (d : Device) :
    SameTimer d (ADC.serveDmaInterrupt capture d).1 := by
  unfold ADC.serveDmaInterrupt
  cases d.adc.nextFull with
  | false => exact { sameTimer_callback (ADC.transfer capture d) with }
  | true =>
    have hcall := sameTimer_callback (ADC.setState .COMPLETE (ADC.transfer capture d))
    simp only [if_true]
    split
    · exact ⟨hcall.tmLast, hcall.tmOffset⟩
    · exact ⟨hcall.tmLast, hcall.tmOffset⟩

theorem sameTimer_foreign (hinv : HandlerInv s) (ha : a.runnerAct = none)
    (h : sysStep k s a = some s') : SameTimer s.dev s'.dev := by
  replace h := sysStep_act h
  cases a with
  | host bytes =>
    cases h
    exact ⟨rfl, rfl⟩
  | comm => exact (hinv.commStep h).2
  | monitor =>
    obtain ⟨mb, monitor, rfl⟩ := monitorStep_cases h
    exact ⟨rfl, rfl⟩
  | runner x => simp [SysAct.runnerAct] at ha
  | adc capture =>
    have hserve := sameTimer_serve capture s.dev
    obtain ⟨mem, hd⟩ := adcStep_dev h
    rw [hd]
    exact ⟨hserve.tmLast, hserve.tmOffset⟩
  | dac full =>
    obtain ⟨-, rfl⟩ := act_dac h
    exact ⟨rfl, rfl⟩
  | memFault lr =>
    obtain ⟨mem, hd⟩ := faultStep_dev h
    rw [hd]
    exact ⟨rfl, rfl⟩
  | hardFault lr =>
    cases h
    obtain ⟨mem, aborts, -, em, entry, he⟩ := hardFault_dev k lr (s.runner.context k) s.dev
    rw [he]
    exact ⟨rfl, rfl⟩

theorem comm_of_sysStep (h : sysStep k s a = some s') (ha : a ≠ .comm) : s'.comm = s.comm := by
  replace h := sysStep_act h
  cases a with
  | host bytes =>
    cases h
    rfl
  | comm => exact absurd rfl ha
  | monitor =>
    obtain ⟨mb, monitor, rfl⟩ := monitorStep_cases h
    rfl
  | runner x =>
    have hmove := runnerStep_moves h
    cases hmove with
    | store msg size samples _ =>
      unfold Sys.beginStore
      dsimp only
      split <;> rfl
    | _ => rfl
  | adc capture =>
    rcases (adcStep_cases h).2 with ⟨-, rfl⟩ | ⟨-, rfl⟩
    · exact (resume_frame s _ _).2.2.1
    · rfl
  | dac full =>
    obtain ⟨-, rfl⟩ := act_dac h
    rfl
  | memFault lr =>
    obtain ⟨ctx, -, rfl⟩ := faultStep_cases h
    exact (resume_frame s _ _).2.2.1
  | hardFault lr =>
    cases h
    rfl

theorem HandlerInv.step (h : HandlerInv s) (hs : sysStep k s a = some s') : HandlerInv s' := by
  by_cases hc : a = .comm
  · subst hc
    exact (h.commStep (sysStep_act hs)).1
  · unfold HandlerInv
    rwa [comm_of_sysStep hs hc]

/-- A start call is for a measured invocation, and the algorithm makes none itself. -/
def Runner.Regular : Runner → Prop
  | .starting msg _ => MSG_FOR_MEASURE msg.code = true
  | .syscall _ _ _ n _ => n ≠ 2
  | _ => True

/-- What one step is to the stopwatch. -/
inductive TimerStep (k : Layout) (s : Sys) (a : SysAct) (s' : Sys) : Prop where
  | quiet (hsame : SameTimer s.dev s'.dev) (hstart : a.starts = none) (hstop : a.stops = none)
      (hm : s'.runner.measuring = s.runner.measuring) (hcut : ¬ Cut k (s, a))
  | start (msg : Msg) (now : UInt32) (ha : a.starts = some now) (hmsg : s.runner.message = some msg)
      (hstop : a.stops = none) (hm' : s'.runner.measuring = some msg)
      (hlast : s'.dev.tmLast = now) (hoffset : s'.dev.tmOffset = s.dev.tmOffset)
  | stop (msg : Msg) (now : UInt32) (ha : a.stops = some now) (hm : s.runner.measuring = some msg)
      (hstart : a.starts = none) (hm' : s'.runner.measuring = none)
      (hlast : s'.dev.tmLast = execTime s.dev.tmOffset s.dev.tmLast now)
      (hoffset : s'.dev.tmOffset = s.dev.tmOffset) (hcut : ¬ Cut k (s, a))
  | cut (hsame : SameTimer s.dev s'.dev) (hstart : a.starts = none) (hstop : a.stops = none)
      (hm' : s'.runner.measuring = none) (hcut : Cut k (s, a))

theorem not_cut_runner (s : Sys) (x : RunnerAct) : ¬ Cut k (s, .runner x) := by
  rintro ⟨⟨capture, ha, -⟩ | ⟨lr, ha⟩, -⟩
  · cases ha
  · cases ha

theorem TimerStep.runner {x : RunnerAct} (h : RunnerMove k s x s') (hreg : s.runner.Regular)
    (hx : ∀ r0, x ≠ .svc 2 r0) : TimerStep k s (.runner x) s' ∧ s'.runner.Regular := by
  have hcut := not_cut_runner (k := k) s x
  cases h with
  | wait hr => exact ⟨.quiet ⟨rfl, rfl⟩ rfl rfl (by rw [hr]; rfl) hcut, trivial⟩
  | receive msg hr hm => exact ⟨.quiet ⟨rfl, rfl⟩ rfl rfl (by rw [hr]; rfl) hcut, trivial⟩
  | callMeasured msg size ctx hr hm => exact ⟨.quiet ⟨rfl, rfl⟩ rfl rfl (by rw [hr]; rfl) hcut, hm⟩
  | call msg size ctx hr hm =>
    exact ⟨.quiet ⟨rfl, rfl⟩ rfl rfl (by simp [hr, Runner.measuring, hm]) hcut, trivial⟩
  | noCall msg size samples ctx hr =>
    exact ⟨.quiet ⟨rfl, rfl⟩ rfl rfl (by rw [hr]; rfl) hcut, trivial⟩
  | startTimer msg size now ctx hr =>
    rw [hr] at hreg
    exact ⟨.start msg now rfl (by rw [hr]; rfl) rfl (if_pos hreg) rfl rfl, trivial⟩
  | compute msg size was ctx w hr =>
    exact ⟨.quiet ⟨rfl, rfl⟩ rfl rfl (by rw [hr]; rfl) hcut, trivial⟩
  | svc msg size ctx n r0 hr =>
    refine ⟨.quiet ⟨rfl, rfl⟩ rfl rfl (by rw [hr]; rfl) hcut, ?_⟩
    rintro rfl
    exact hx r0 rfl
  | svcReturn msg size ctx n r0 now d hr hd =>
    rw [hr] at hreg
    have hdev : d = s.dev := by
      simp only [port_syscall, if_neg (show n ≠ 2 from hreg)] at hd
      split at hd
      · exact (Option.some.inj hd).symm
      · cases hd
    exact ⟨.quiet (by rw [hdev]; exact ⟨rfl, rfl⟩) rfl rfl (by rw [hr]; rfl) hcut, trivial⟩
  | retMeasured msg size ctx samples hr hm =>
    exact ⟨.quiet ⟨rfl, rfl⟩ rfl rfl (by simp [hr, Runner.measuring, hm]) hcut, trivial⟩
  | ret msg size ctx samples hr hm =>
    exact ⟨.quiet ⟨rfl, rfl⟩ rfl rfl (by simp [hr, Runner.measuring, hm]) hcut, trivial⟩
  | stopTimer msg size samples now hr =>
    exact ⟨.stop msg now rfl (by rw [hr]; rfl) rfl rfl rfl rfl hcut, trivial⟩
  | store msg size samples hr =>
    obtain ⟨base, srcend, hcopy⟩ := beginStore_runner (s := s) msg size samples
    refine ⟨.quiet ?_ rfl rfl (by rw [hr, hcopy]; rfl) hcut, by rw [hcopy]; trivial⟩
    unfold Sys.beginStore
    dsimp only
    split <;> exact ⟨rfl, rfl⟩
  | copy msg samples base srcend w hr =>
    rcases copyBlock_runner (s := s) msg samples base srcend w with hcopy | hcopy
    · exact ⟨.quiet ⟨rfl, rfl⟩ rfl rfl (by rw [hr, hcopy]; rfl) hcut, by rw [hcopy]; trivial⟩
    · exact ⟨.quiet ⟨rfl, rfl⟩ rfl rfl (by rw [hr, hcopy]; rfl) hcut, by rw [hcopy]; trivial⟩

theorem moveStack_measuring (newpsp : UInt32) (r : Runner) :
    (r.moveStack newpsp).measuring = r.measuring := by
  cases r <;> rfl

theorem moveStack_regular (newpsp : UInt32) (r : Runner) :
    (r.moveStack newpsp).Regular ↔ r.Regular := by
  cases r <;> rfl

theorem TimerStep.foreign (hinv : HandlerInv s) (hreg : s.runner.Regular) (ha : a.runnerAct = none)
    (h : sysStep k s a = some s') : TimerStep k s a s' ∧ s'.runner.Regular := by
  have hsame := sameTimer_foreign hinv ha h
  have hstart : a.starts = none := by cases a <;> simp_all [SysAct.runnerAct, SysAct.starts]
  have hstop : a.stops = none := by cases a <;> simp_all [SysAct.runnerAct, SysAct.stops]
  -- A cut would have restarted the runner.
  have hquiet : s'.runner.measuring = s.runner.measuring → TimerStep k s a s' := by
    intro hm
    refine .quiet hsame hstart hstop hm fun hcut => hcut.2.2 ?_
    rw [← hm, restart_of_aborting h hcut.1 hcut.2.1]
    rfl
  rcases runner_of_foreign ha h with ⟨newpsp, hr⟩ | hr | ⟨hr, hab, hin⟩
  · rw [hr, moveStack_regular]
    exact ⟨hquiet (by rw [hr, moveStack_measuring]), hreg⟩
  · rw [hr]
    exact ⟨hquiet (by rw [hr]), hreg⟩
  · refine ⟨?_, by rw [hr]; trivial⟩
    by_cases hm : s.runner.measuring = none
    · exact hquiet (by rw [hr, hm]; rfl)
    · exact .cut hsame hstart hstop (by rw [hr]; rfl) ⟨hab, hin, hm⟩

theorem timerStep_of_sysStep (hinv : HandlerInv s) (hreg : s.runner.Regular)
    (ha : ∀ r0, a ≠ .runner (.svc 2 r0)) (h : sysStep k s a = some s') :
    TimerStep k s a s' ∧ s'.runner.Regular := by
  cases hact : a.runnerAct with
  | none => exact TimerStep.foreign hinv hreg hact h
  | some x =>
    obtain rfl := eq_runner_of_runnerAct hact
    exact TimerStep.runner (runnerStep_moves (sysStep_act h)) hreg fun r0 he => ha r0 (by rw [he])

end Steps

/-! ### Runs -/

/-- What the field holds, while a measured invocation is timed and otherwise. -/
structure TimerInv (k : Layout) (b : Board) (tr : List (Sys × SysAct)) (s : Sys) : Prop where
  handler : HandlerInv s
  regular : s.runner.Regular
  offset : s.dev.tmOffset = b.tmOffset
  timing : ∀ msg, s.runner.measuring = some msg →
    Timing tr msg s.dev.tmLast ∧ ¬ Since (Cut k) TimerStarted tr
  settled : s.runner.measuring = none → ¬ Since (Cut k) TimerStarted tr →
    Readout b.tmOffset tr s.dev.tmLast
  raw : s.runner.measuring = none → Since (Cut k) TimerStarted tr → RawStart tr s.dev.tmLast

section Run

variable {k : Layout} {b : Board} {tr : List (Sys × SysAct)} {s s' : Sys} {a : SysAct}

theorem timerInv_boot (k : Layout) (b : Board) : TimerInv k b [] (boot b) where
  handler := fun _ _ hc => by cases hc
  regular := trivial
  offset := rfl
  timing := fun _ hm => by cases hm
  settled := fun _ _ => .inl ⟨by simp, rfl⟩
  raw := fun _ h => absurd h not_since_nil

theorem TimerInv.step (h : TimerInv k b tr s) (ha : ∀ r0, a ≠ .runner (.svc 2 r0))
    (hs : sysStep k s a = some s') : TimerInv k b (tr ++ [(s, a)]) s' := by
  obtain ⟨htimer, hreg⟩ := timerStep_of_sysStep h.handler h.regular ha hs
  have hhandler := h.handler.step hs
  cases htimer with
  | quiet hsame hstart hstop hm hcut =>
    have hsince : Since (Cut k) TimerStarted (tr ++ [(s, a)]) ↔ Since (Cut k) TimerStarted tr := by
      rw [since_snoc_iff, or_iff_right hcut]
      exact and_iff_left fun hstarts => hstarts hstart
    refine ⟨hhandler, hreg, hsame.tmOffset.trans h.offset, ?_, ?_, ?_⟩
    · intro msg hmsg
      rw [hm] at hmsg
      rw [hsince, hsame.tmLast]
      exact ⟨(h.timing msg hmsg).1.snoc hmsg hstart hstop, (h.timing msg hmsg).2⟩
    · intro hnone hno
      rw [hm] at hnone
      rw [hsince] at hno
      rw [hsame.tmLast]
      exact (h.settled hnone hno).snoc hstop
    · intro hnone hsome
      rw [hm] at hnone
      rw [hsince] at hsome
      rw [hsame.tmLast]
      exact (h.raw hnone hsome).snoc hstart hstop
  | start msg now hstart hmsg hstop hm' hlast hoffset =>
    refine ⟨hhandler, hreg, hoffset.trans h.offset, ?_, ?_, ?_⟩
    · intro msg' hmsg'
      obtain rfl := Option.some.inj (hm'.symm.trans hmsg')
      rw [hlast]
      refine ⟨⟨tr, s, a, [], rfl, hstart, hmsg, by simp⟩, ?_⟩
      rw [since_snoc_iff]
      rintro (⟨hab, -⟩ | ⟨-, hno⟩)
      · rcases hab with ⟨capture, rfl, -⟩ | ⟨lr, rfl⟩
        · cases hstart
        · cases hstart
      · exact hno (by simp [TimerStarted, hstart])
    · intro hnone
      rw [hm'] at hnone
      cases hnone
    · intro hnone
      rw [hm'] at hnone
      cases hnone
  | stop msg now hstop hm hstart hm' hlast hoffset hcut =>
    obtain ⟨htiming, hno⟩ := h.timing msg hm
    refine ⟨hhandler, hreg, hoffset.trans h.offset, ?_, ?_, ?_⟩
    · intro msg' hmsg'
      rw [hm'] at hmsg'
      cases hmsg'
    · intro _ _
      rw [hlast, h.offset]
      exact htiming.readout hm hstop
    · intro _ hsince
      rw [since_snoc_iff] at hsince
      exact absurd hsince (not_or.mpr ⟨hcut, fun hs => hno hs.1⟩)
  | cut hsame hstart hstop hm' hcut =>
    refine ⟨hhandler, hreg, hsame.tmOffset.trans h.offset, ?_, ?_, ?_⟩
    · intro msg' hmsg'
      rw [hm'] at hmsg'
      cases hmsg'
    · intro _ hno
      exact absurd (since_last hcut) hno
    · intro _ _
      obtain ⟨msg, hmsg⟩ := Option.ne_none_iff_exists'.mp hcut.2.2
      rw [hsame.tmLast]
      exact (h.timing msg hmsg).1.raw.snoc hstart hstop

theorem timerInv_run (h : SysRun k b tr s) (huser : ∀ p ∈ tr, ∀ r0, p.2 ≠ .runner (.svc 2 r0)) :
    TimerInv k b tr s := by
  induction h with
  | nil => exact timerInv_boot k b
  | snoc _ hs ih =>
    rw [List.forall_mem_append, List.forall_mem_singleton] at huser
    exact (ih huser.1).step huser.2 hs.2

/-- The command thread runs while the runner waits. -/
theorem measuring_of_comm (hs : PrioStep k s .comm s') : s.runner.measuring = none := by
  have hallowed : allowed s .comm = true := hs.1
  simp only [allowed, Bool.and_eq_true, beq_iff_eq] at hallowed
  rw [hallowed.1.1]
  rfl

/-- The reply of 'm' is the field. -/
theorem HandlerInv.sent (h : HandlerInv s) {rest : Fw Unit} {bytes : List UInt8}
    (hm : s.comm = .running 'm'.toUInt8 rest) (hs : PrioStep k s .comm s')
    (hsent : s'.dev.trace = s.dev.trace ++ [.write bytes]) : bytes = wordBytes s.dev.tmLast := by
  have hstep : s.commStep = some s' := sysStep_act hs.2
  unfold Sys.commStep at hstep
  rw [hm] at hstep
  rcases (h _ _ hm).2 rfl with rfl | rfl
  · have hdev : s'.dev = s.dev.logCall (.write (wordBytes s.dev.tmLast)) := by
      obtain rfl := Option.some.inj hstep
      rfl
    rw [hdev, Device.logCall, List.append_cancel_left_eq] at hsent
    exact (Call.write.inj (List.singleton_inj.mp hsent)).symm
  · obtain rfl := Option.some.inj hstep
    simp at hsent

/-- In every run in which the algorithm makes no timer call itself: what 'm' sends is the
execution time of the last measured invocation that completed, or 0, unless an abort or a
fault has restarted the runner inside the last one that was started. Then it is the
counter value at that start. -/
theorem exec_time_sent {rest : Fw Unit} {bytes : List UInt8} (h : SysRun k b tr s)
    (huser : ∀ p ∈ tr, ∀ r0, p.2 ≠ .runner (.svc 2 r0))
    (hm : s.comm = .running 'm'.toUInt8 rest) (hs : PrioStep k s .comm s')
    (hsent : s'.dev.trace = s.dev.trace ++ [.write bytes]) :
    (¬ Since (Cut k) TimerStarted tr → ∃ v, bytes = wordBytes v ∧ Readout b.tmOffset tr v) ∧
      (Since (Cut k) TimerStarted tr → ∃ v, bytes = wordBytes v ∧ RawStart tr v) := by
  have hinv := timerInv_run h huser
  have hnone := measuring_of_comm hs
  have hbytes := hinv.handler.sent hm hs hsent
  exact ⟨fun hno => ⟨_, hbytes, hinv.settled hnone hno⟩, fun hcut => ⟨_, hbytes, hinv.raw hnone hcut⟩⟩

end Run

/-! ### A measured invocation, and one that is cut -/

/-- Up to the start call of a measured invocation, at counter value 100. -/
def measuredStart : List SysAct :=
  algorithmStart.append [.host ['M'.toUInt8], .comm, .comm, .comm, .comm, .adc fun _ => 7, .monitor,
    .runner .receive, .runner (.call algorithmContext), .runner (.startTimer 100 algorithmContext)]

/-- It completes at 400, and the host asks for the time. -/
def measuredSession : List SysAct :=
  measuredStart.append [.runner (.ret (some (.input 0))), .runner (.stopTimer 400), .runner .store,
    .runner .copy, .runner .wait, .host ['m'.toUInt8], .comm]

/-- It faults instead. -/
def cutSession : List SysAct :=
  measuredStart.append [.memFault 0xFFFFFFFD, .runner .wait, .host ['m'.toUInt8], .comm]

def makesNoTimerCall (acts : List SysAct) : Bool :=
  acts.all fun a =>
    match a with
    | .runner (.svc n _) => n != 2
    | _ => true

theorem svc_of_makesNoTimerCall {tr : List (Sys × SysAct)}
    (h : makesNoTimerCall (tr.map Prod.snd) = true) :
    ∀ p ∈ tr, ∀ r0, p.2 ≠ .runner (.svc 2 r0) := by
  intro p hp r0 heq
  rw [makesNoTimerCall, List.all_map, List.all_eq_true] at h
  have hall := h p hp
  simp [heq] at hall

/-- The next step of the command thread answers an 'm' with `bytes`. -/
def answersWith (bytes : List UInt8) (s : Sys) : Bool :=
  (match s.comm with
    | .running c _ => c == 'm'.toUInt8
    | .idle => false) &&
  (sysStep default s .comm).any fun s' => allowed s .comm &&
    s'.dev.trace == s.dev.trace ++ [.write bytes]

theorem answersWith_iff {bytes : List UInt8} {s : Sys} (h : answersWith bytes s = true) :
    ∃ rest s', s.comm = .running 'm'.toUInt8 rest ∧ PrioStep default s .comm s' ∧
      s'.dev.trace = s.dev.trace ++ [.write bytes] := by
  simp only [answersWith, Bool.and_eq_true, Option.any_eq_true, beq_iff_eq] at h
  obtain ⟨hm, s', hs, hallowed, hsent⟩ := h
  split at hm
  · rename_i c rest hc
    obtain rfl := beq_iff_eq.mp hm
    exact ⟨rest, s', hc, ⟨hallowed, hs⟩, hsent⟩
  · cases hm

/-- 300 cycles, 195 of them for measuring. -/
theorem exec_time_sent_measured :
    ∃ tr s s' v, SysRun default default tr s ∧ tr.map Prod.snd = measuredSession ∧
      PrioStep default s .comm s' ∧ s'.dev.trace = s.dev.trace ++ [.write [105, 0, 0, 0]] ∧
      [105, 0, 0, 0] = wordBytes v ∧ Readout 0 tr v := by
  obtain ⟨tr, s, hr, hacts, hquiet, hp⟩ := exists_run_without_abort default default measuredSession
    (answersWith [105, 0, 0, 0]) (by decide +kernel)
  obtain ⟨rest, s', hm, hs, hsent⟩ := answersWith_iff hp
  have huser := svc_of_makesNoTimerCall (by rw [hacts]; decide)
  have hno : ¬ Since (Cut default) TimerStarted tr := by
    rintro ⟨l, p, l', rfl, hcut, -⟩
    exact hquiet p (by simp) hcut.1.calls
  obtain ⟨v, hv, hread⟩ := (exec_time_sent hr huser hm hs hsent).1 hno
  exact ⟨tr, s, s', v, hr, hacts, hs, hsent, hv, hread⟩

/-- The reply is the counter value at the start call, where no invocation has completed. -/
theorem exec_time_raw :
    ∃ tr s s', SysRun default default tr s ∧ tr.map Prod.snd = cutSession ∧
      (∀ p ∈ tr, ∀ r0, p.2 ≠ .runner (.svc 2 r0)) ∧
      PrioStep default s .comm s' ∧ s'.dev.trace = s.dev.trace ++ [.write (wordBytes 100)] ∧
      (∀ p ∈ tr, p.2.stops = none) ∧ ¬ ∃ v, wordBytes 100 = wordBytes v ∧ Readout 0 tr v := by
  obtain ⟨tr, s, hr, hacts, hp⟩ := exists_run_of_exec default default cutSession
    (answersWith (wordBytes 100)) (by decide +kernel)
  obtain ⟨rest, s', hm, hs, hsent⟩ := answersWith_iff hp
  have huser := svc_of_makesNoTimerCall (by rw [hacts]; decide)
  have hnever : ∀ p ∈ tr, p.2.stops = none := by
    have hall : ∀ a ∈ cutSession, a.stops = none := by decide
    rw [← hacts] at hall
    exact fun p hp => hall _ (List.mem_map_of_mem hp)
  refine ⟨tr, s, s', hr, hacts, huser, hs, hsent, hnever, ?_⟩
  rintro ⟨v, hv, ⟨-, rfl⟩ | ⟨start, stop, ⟨l, t, a, l', msg, rfl, -, -, hstop, -⟩, -⟩⟩
  · exact absurd hv (by decide)
  · have hnone := hnever (t, a) (by simp)
    rw [hstop] at hnone
    cases hnone

end Stmdsp
