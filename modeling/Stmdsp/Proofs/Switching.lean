import Stmdsp.Proofs.ThreadRuns

/-! Who runs, in every run of the threads: messages before commands, and every kernel call
with its assertions met. -/

namespace Stmdsp

open Kernel

namespace OS

variable {k : Layout} {b : Board} {tr : List (OS × OSAct)} {o : OS}

namespace Inv

theorem current_runner (h : o.Inv) (hr : o.kernel.blocked .runner = none) :
    o.kernel.current = .runner := by
  refine h.settled.current_of_lt hr ?_
  intro t hne _
  cases t <;> first | exact absurd rfl hne | decide

theorem current_monitor (h : o.Inv) (hm : o.kernel.blocked .monitor = none)
    (hr : o.kernel.blocked .runner ≠ none) : o.kernel.current = .monitor := by
  refine h.settled.current_of_lt hm ?_
  intro t hne ht
  cases t <;> first | exact absurd rfl hne | exact absurd ht hr | decide

/-- Of equal priority are `main` and the command thread alone. -/
theorem current_main_or_comm (h : o.Inv) (hm : o.kernel.blocked .monitor ≠ none)
    (hr : o.kernel.blocked .runner ≠ none)
    (hnormal : o.kernel.blocked .main = none ∨ o.kernel.blocked .comm = none) :
    o.kernel.current = .main ∨ o.kernel.current = .comm := by
  have hle : NORMALPRIO ≤ o.kernel.current.prio := by
    rcases hnormal with hb | hb
    · exact h.settled.le_current hb
    · exact h.settled.le_current hb
  cases hcur : o.kernel.current with
  | main => exact .inl rfl
  | comm => exact .inr rfl
  | monitor => exact absurd (h.blocked_current hcur) hm
  | runner => exact absurd (h.blocked_current hcur) hr
  | idle => rw [hcur] at hle; exact absurd hle (by decide)
  | led => rw [hcur] at hle; exact absurd hle (by decide)

theorem cnt_of_queue (h : o.Inv) (hq : o.sys.dev.mMailbox.queue = []) : o.mMailbox.cnt = 0 := by
  have heq : o.mMailbox.cnt = _ := h.handoff.ring.cnt_eq
  rw [heq, hq, List.length_nil]

end Inv

/-- What can happen is no failed assertion. -/
theorem kernel_calls_succeed {a : OSAct} (h : OSRun k b tr o) (he : o.enabled k a = true) :
    ∃ o', OSStep k o a o' := by
  obtain ⟨hi, tr', hr, -⟩ := inv_of_run h
  obtain ⟨o', hadv⟩ := advances hi (sysInv_run hr) he
  exact ⟨o', he, hadv.act⟩

/-- Actions that execute from the start make a run. -/
theorem exists_run (k : Layout) (b : Board) (acts : List OSAct) (p : OS → Bool)
    (h : (acts.foldlM (OS.step k) (OS.start b)).any p = true) :
    ∃ tr o, OSRun k b tr o ∧ tr.map Prod.snd = acts ∧ p o = true :=
  have hstep : ∀ o a o', OS.step k o a = some o' → OSStep k o a o' := fun _ _ _ => step_eq_some
  Run.exists_of_foldlM hstep acts p h

/-- The threads are created, a conversion is started, and the monitor thread has sent the
message of the first event. -/
def sendingSession : List OSAct :=
  [.create, .await, .create, .wait, .create, .create, .exit, .sys (.host ['R'.toUInt8])] ++
    List.replicate 12 (.sys .comm) ++ [.sys (.adc fun _ => 5), .fetch, .send]

theorem kernel_calls_succeed_sending :
    ∃ tr o, OSRun default default tr o ∧ tr.map Prod.snd = sendingSession ∧
      ∃ o', OSStep default o .receive o' := by
  obtain ⟨tr, o, hr, hacts, he⟩ := exists_run default default sendingSession
    (fun o => o.enabled default .receive) (by decide +kernel)
  exact ⟨tr, o, hr, hacts, kernel_calls_succeed hr he⟩

/-- The thread that runs has the highest priority of those that could; while a message is
processed it is the runner, and while one is on its way no other than the monitor thread or
the runner. -/
theorem messages_first (h : OSRun k b tr o) :
    (∀ t, o.kernel.blocked t = none → t.prio ≤ o.kernel.current.prio) ∧
      (o.sys.runner.message ≠ none → o.kernel.current = .runner) ∧
      (inFlight o.sys ≠ [] → o.kernel.current = .monitor ∨ o.kernel.current = .runner) := by
  obtain ⟨hi, tr', hr, -⟩ := inv_of_run h
  have hs := sysInv_run hr
  refine ⟨fun t ht => hi.settled.le_current ht, ?_, ?_⟩
  · intro hmsg
    cases hi.handoff.runner with
    | before _ htop => rw [htop] at hmsg; exact absurd rfl hmsg
    | asleep _ hw => rw [hw] at hmsg; exact absurd rfl hmsg
    | awake hb => exact hi.current_runner hb
  · intro hflight
    by_contra hother
    rw [not_or] at hother
    have hlt : o.kernel.current.prio < Thread.monitor.prio := by
      cases hcur : o.kernel.current with
      | monitor => exact absurd hcur hother.1
      | runner => exact absurd hcur hother.2
      | idle | main | led | comm => decide
    have hcomm : .comm ∉ o.toCreate := by
      intro hmem
      have hquiet := hs.quiet (hi.quiet hmem)
      exact hflight (by simp [inFlight, hquiet.monitor, hquiet.queue, Monitor.held])
    obtain ⟨-, -, hm, -, hcnt⟩ := hi.served rfl hlt hcomm
    exact hflight (by simp [inFlight, hm, hi.queue_of_cnt hcnt, Monitor.held])

/-- The runner has that message when the next event comes. -/
def busySession : List OSAct := sendingSession ++ [.receive, .sys (.adc fun _ => 6)]

theorem messages_first_busy :
    ∃ tr o, OSRun default default tr o ∧ tr.map Prod.snd = busySession ∧
      inFlight o.sys ≠ [] ∧ o.kernel.current = .runner := by
  obtain ⟨tr, o, hr, hacts, hp⟩ := exists_run default default busySession
    (fun o => o.sys.runner.message.isSome && !(inFlight o.sys).isEmpty)
    (by decide +kernel)
  simp only [Bool.and_eq_true, Bool.not_eq_true', List.isEmpty_eq_false_iff] at hp
  exact ⟨tr, o, hr, hacts, hp.2, (messages_first hr).2.1 (Option.isSome_iff_ne_none.mp hp.1)⟩

/-- The slots of the ring are the queue of the mailbox, and what `svc 0` returned last is
what the runner works on, if it works, and the last message of the log in any case. -/
theorem svc_returns_received (h : OSRun k b tr o) :
    o.mMailbox.reset = false ∧
      RingBuffer.contents o.mMailbox.buffer 2 o.mMailbox.rdptr o.mMailbox.cnt =
        o.sys.dev.mMailbox.queue ∧
      (∀ msg, o.sys.runner.message = some msg → o.r0 = some msg) ∧
      o.r0 = (receivedMsgs o.sys.dev.conv).getLast? := by
  obtain ⟨hi, tr', hr, -⟩ := inv_of_run h
  exact ⟨hi.reset_false (sysInv_run hr), hi.handoff.ring.queue, hi.taken, hi.returned⟩

theorem svc_returns_received_busy :
    ∃ tr o, OSRun default default tr o ∧ tr.map Prod.snd = busySession ∧
      o.sys.runner.message = some ⟨1, 1⟩ ∧ o.r0 = some ⟨1, 1⟩ ∧ o.mMailbox.cnt = 1 ∧
      RingBuffer.contents o.mMailbox.buffer 2 o.mMailbox.rdptr o.mMailbox.cnt =
        o.sys.dev.mMailbox.queue := by
  obtain ⟨tr, o, hr, hacts, hp⟩ := exists_run default default busySession
    (fun o => o.sys.runner.message == some ⟨1, 1⟩ && o.mMailbox.cnt == 1)
    (by decide +kernel)
  simp only [Bool.and_eq_true, beq_iff_eq] at hp
  obtain ⟨-, hring, htaken, -⟩ := svc_returns_received hr
  exact ⟨tr, o, hr, hacts, hp.1, htaken _ hp.1, hp.2, hring⟩

end OS

end Stmdsp
