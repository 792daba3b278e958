import Stmdsp.Proofs.Messages

/-! Overrun protection: whether the half of `In` that a message reported may have
been filled again by the time its result is stored. The messages behind it, in
the mailbox or with the monitor, count the events since. -/

namespace Stmdsp

/-- Any interleaving of interrupts, monitor and runner. The command thread alone
waits for its turn. -/
def LooseStep (k : Layout) (s : Sys) (a : SysAct) (s' : Sys) : Prop :=
  (a = .comm → allowed s .comm = true) ∧ sysStep k s a = some s'

theorem PrioStep.loose {k : Layout} {s s' : Sys} {a : SysAct} (h : PrioStep k s a s') :
    LooseStep k s a s' :=
  ⟨fun ha => ha ▸ h.1, h.2⟩

/-- The mailbox was reset in an event after the one that posted `msg`. -/
def ResetAfter (conv : List ConvEvent) (msg : Msg) : Prop :=
  ∃ ev lost, .reset ev lost ∈ conv ∧ msg.event < ev

theorem ResetAfter.mono {conv conv' : List ConvEvent} {msg : Msg} (h : ResetAfter conv msg)
    (hc : conv ⊆ conv') : ResetAfter conv' msg := by
  obtain ⟨ev, lost, hmem, hlt⟩ := h
  exact ⟨ev, lost, hc hmem, hlt⟩

/-- Storing the result for `msg` is in time: the event that completes its half
again has not occurred, or the overrun was detected. -/
def StoreInTime (s : Sys) (msg : Msg) : Prop :=
  s.dev.adc.events < msg.event + 2 ∨ ResetAfter s.dev.conv msg

/-- The messages from the runner's on, oldest first. -/
def inProcess (s : Sys) : List Msg := s.runner.message.toList ++ inFlight s

/-- Each message is as many events old as there are messages behind it, unless a
reset came after it. -/
def Paced (conv : List ConvEvent) (events : ℕ) : List Msg → Prop
  | [] => True
  | msg :: rest =>
    (ResetAfter conv msg ∨ events = msg.event + rest.length) ∧ msg.event ≤ events ∧
      Paced conv events rest

section Paced

variable {conv conv' : List ConvEvent} {events : ℕ} {l : List Msg}

theorem Paced.mono (h : Paced conv events l) (hc : conv ⊆ conv') : Paced conv' events l := by
  induction l with
  | nil => trivial
  | cons msg rest ih => exact ⟨h.1.imp_left (·.mono hc), h.2.1, ih h.2.2⟩

theorem Paced.event_le (h : Paced conv events l) {msg : Msg} (hm : msg ∈ l) :
    msg.event ≤ events := by
  induction l with
  | nil => simp at hm
  | cons first rest ih =>
    rcases List.mem_cons.mp hm with rfl | hm
    · exact h.2.1
    · exact ih h.2.2 hm

theorem Paced.post (h : Paced conv events l) (code : ℕ) :
    Paced conv (events + 1) (l ++ [⟨code, events + 1⟩]) := by
  induction l with
  | nil => exact ⟨.inr rfl, le_rfl, trivial⟩
  | cons msg rest ih =>
    refine ⟨h.1.imp_right fun he => ?_, h.2.1.trans (Nat.le_succ _), ih h.2.2⟩
    simp [he, Nat.add_assoc]

theorem paced_of_reset (ev : ℕ) (lost : List Msg) (hr : .reset ev lost ∈ conv)
    (hl : ∀ msg ∈ l, msg.event < ev) (he : ev ≤ events) : Paced conv events l := by
  induction l with
  | nil => trivial
  | cons msg rest ih =>
    have hlt := hl msg (List.mem_cons_self ..)
    exact ⟨.inl ⟨ev, lost, hr, hlt⟩, (by omega), ih fun m hm => hl m (List.mem_cons_of_mem _ hm)⟩

theorem Paced.of_append {l' : List Msg} (h : Paced conv events (l ++ l')) : Paced conv events l' := by
  induction l with
  | nil => exact h
  | cons msg rest ih => exact ih h.2.2

end Paced

structure PaceInv (s : Sys) : Prop where
  comm : CommSafe s
  reset : s.dev.mMailbox.reset = false
  measure : s.dev.adc.mOperation = some .adcReadHandlerMeasure → s.dev.mMailbox.queue = []
  stopped : s.dev.adc.mOperation = none → inProcess s = []
  paced : Paced s.dev.conv s.dev.adc.events (inProcess s)

theorem paceInv_boot (b : Board) : PaceInv (boot b) :=
  ⟨.inr ⟨rfl, rfl, rfl⟩, rfl, fun _ => rfl, fun _ => rfl, trivial⟩

theorem inProcess_quiescent {s : Sys} (h : Quiescent s) : inProcess s = [] := by
  simp [inProcess, inFlight, h.runner, h.monitor, h.queue, Monitor.held]

/-- The runner's message stays or is done with; the messages behind it are the same
either way. -/
theorem inProcess_runner {s s' : Sys}
    (hr : s'.runner.message = s.runner.message ∨ s'.runner.message = none) :
    inProcess s' = s.runner.message.toList ++ inFlight s' ∨ inProcess s' = inFlight s' := by
  rcases hr with hr | hr
  · exact .inl (by rw [inProcess, hr])
  · exact .inr (by rw [inProcess, hr]; rfl)

theorem Paced.inProcess {s s' : Sys} {conv : List ConvEvent} {events : ℕ}
    (h : Paced conv events (s.runner.message.toList ++ inFlight s'))
    (hr : s'.runner.message = s.runner.message ∨ s'.runner.message = none) :
    Paced conv events (inProcess s') := by
  rcases inProcess_runner hr with he | he
  · rwa [he]
  · rw [he]
    exact h.of_append

theorem inProcess_nil {s s' : Sys} (h : inProcess s = []) (hf : inFlight s' = inFlight s)
    (hr : s'.runner.message = s.runner.message ∨ s'.runner.message = none) : inProcess s' = [] := by
  obtain ⟨hmsg, hflight⟩ := List.append_eq_nil_iff.mp h
  rcases inProcess_runner hr with he | he
  · rw [he, hf, hmsg, hflight]
    rfl
  · rw [he, hf, hflight]

section Steps

variable {s s' : Sys}

theorem PaceInv.adc {aborted : Bool} (h : PaceInv s) (hcomm : CommSafe s')
    (hreset : s'.dev.mMailbox.reset = false)
    (he : AdcEffect (s.dev.adc.events + 1) s.dev.mail s'.dev.mail aborted)
    (hev : s'.dev.adc.events = s.dev.adc.events + 1) (hm : s'.monitor = s.monitor)
    (hr : s'.runner.message = s.runner.message ∨ s'.runner.message = none) : PaceInv s' := by
  cases he with
  | ignored hop hv =>
    simp only [Device.mail, MailView.mk.injEq] at hv
    obtain ⟨hop', hq, -⟩ := hv
    have hflight : inFlight s' = inFlight s := by rw [inFlight_eq hm, hq, inFlight]
    have hnil : inProcess s' = [] := inProcess_nil (h.stopped hop) hflight hr
    refine ⟨hcomm, hreset, fun hmeas => ?_, fun _ => hnil, by rw [hnil]; trivial⟩
    rw [hop'] at hmeas
    rw [hq]
    exact h.measure hmeas
  | posted code hop _ hv =>
    simp only [Device.mail, MailView.mk.injEq] at hv
    obtain ⟨hop', hq, hc⟩ := hv
    refine ⟨hcomm, hreset, by simp [hop'], by simp [hop'], Paced.inProcess ?_ hr⟩
    have hflight : inFlight s' = inFlight s ++ [⟨code, s.dev.adc.events + 1⟩] := by
      rw [inFlight_eq hm, hq, inFlight, List.append_assoc]
    rw [hflight, hev, hc, ← List.append_assoc]
    exact (h.paced.post code).mono (List.subset_append_left _ _)
  | reset _ _ hv =>
    simp only [Device.mail, MailView.mk.injEq] at hv
    obtain ⟨hop', hq, hc⟩ := hv
    refine ⟨hcomm, hreset, by simp [hop'], by simp [hop'], Paced.inProcess ?_ hr⟩
    have hflight : inFlight s' = s.monitor.held := by rw [inFlight_eq hm, hq, List.append_nil]
    rw [hflight, hev, hc]
    refine paced_of_reset (s.dev.adc.events + 1) s.dev.mMailbox.queue (by simp)
      (fun msg hmem => ?_) le_rfl
    refine Nat.lt_succ_of_le (h.paced.event_le ?_)
    rw [inProcess, inFlight, ← List.append_assoc]
    exact List.mem_append_left _ hmem
  | lost msg hop hfull _ =>
    have hempty : s.dev.mMailbox.queue = [] := h.measure hop
    simp [Device.mail, hempty] at hfull

theorem PaceInv.step {k : Layout} {a : SysAct} (h : PaceInv s) (hs : LooseStep k s a s') :
    PaceInv s' := by
  obtain ⟨hallowed, hstep⟩ := hs
  by_cases ha : a = .comm
  · subst ha
    have hq := quiescent_of_allowed (hallowed rfl)
    obtain ⟨hsafe, hmail, hm, hr⟩ := h.comm.step (sysStep_act hstep)
    have hq' : Quiescent s' := ⟨by rw [hmail.mMailbox]; exact hq.queue, hm.trans hq.monitor,
      by rw [hr]; exact hq.runner⟩
    have hnil := inProcess_quiescent hq'
    exact ⟨hsafe, by rw [hmail.mMailbox]; exact h.reset, fun _ => hq'.queue, fun _ => hnil,
      by rw [hnil]; trivial⟩
  obtain ⟨hi, hc, hreset⟩ := sysStep_interference h.reset hstep ha
  have hcomm := h.comm.stable hi hc
  cases (sysStep_effect h.reset hstep).1 with
  | comm _ => exact absurd rfl ha
  | fetch msg hm hm' hq hrun hop hconv hev =>
    have hprocess : inProcess s' = inProcess s := by
      rw [inProcess, inProcess, inFlight, inFlight, hrun, hm, hm', hq]
      rfl
    refine ⟨hcomm, hreset, fun hmeas => ?_, ?_, ?_⟩
    · rw [hop] at hmeas
      rw [h.measure hmeas] at hq
      simp at hq
    · rw [hop, hprocess]
      exact h.stopped
    · rw [hprocess, hconv, hev]
      exact h.paced
  | receive msg hrun hrun' hm hm' hmail hev =>
    simp only [Device.mail, MailView.mk.injEq] at hmail
    obtain ⟨hop, hq, hconv⟩ := hmail
    have hprocess : inProcess s' = inProcess s := by
      rw [inProcess, inProcess, inFlight, inFlight, hrun, hrun', hm, hm', hq]
      rfl
    refine ⟨hcomm, hreset, ?_, ?_, ?_⟩
    · rw [hop, hq]
      exact h.measure
    · rw [hop, hprocess]
      exact h.stopped
    · rw [hprocess, hconv, hev]
      exact h.paced.mono (List.subset_append_left _ _)
  | adc _ _ _ he hev hm hr => exact h.adc hcomm hreset he hev hm hr
  | work _ aborts _ hmail hev hm hr =>
    simp only [Device.mail, MailView.mk.injEq] at hmail
    obtain ⟨hop, hq, hconv⟩ := hmail
    have hflight : inFlight s' = inFlight s := by rw [inFlight_eq hm, hq, inFlight]
    refine ⟨hcomm, hreset, ?_, ?_, Paced.inProcess ?_ hr⟩
    · rw [hop, hq]
      exact h.measure
    · rw [hop]
      exact fun hnone => inProcess_nil (h.stopped hnone) hflight hr
    · rw [hflight, hconv, hev]
      exact h.paced.mono (List.subset_append_left _ _)

end Steps

/-- Whenever the runner is storing a result, it is in time exactly if fewer than two
later messages are waiting or the mailbox has been reset since. -/
theorem store_in_time_iff {k : Layout} {b : Board} {tr : List (Sys × SysAct)} {s : Sys}
    (h : Run (LooseStep k) (boot b) tr s) {msg : Msg} {samples : Ptr} {base srcend w : ℕ}
    (hc : s.runner = .copying msg samples base srcend w) :
    StoreInTime s msg ↔ (inFlight s).length ≤ 1 ∨ ResetAfter s.dev.conv msg := by
  have hinv := h.invariant (I := PaceInv) (paceInv_boot b) fun _ _ _ hi hs => hi.step hs
  have hpaced := hinv.paced
  rw [inProcess, hc] at hpaced
  rcases hpaced.1 with hreset | hev
  · exact iff_of_true (.inr hreset) (.inr hreset)
  · have hage : s.dev.adc.events = msg.event + (inFlight s).length := hev
    rw [StoreInTime, hage]
    exact or_congr_left (by omega)

/-- The runner has the message of event 1 and is about to store its result when
event 2, and then event 3, is delivered. -/
def lateStore (later : ℕ) : List SysAct :=
  firstMessage.append
    (.runner (.call ⟨0, 0⟩) :: (List.replicate later (.adc fun _ => 8)).concat (.runner .store))

def storing (msg : Msg) (s : Sys) : Bool :=
  s.runner == .copying msg (.input 0) 0 8 0

theorem store_in_time_iff_one_later :
    ∃ tr s, SysRun default default tr s ∧ tr.map Prod.snd = lateStore 1 ∧
      s.runner = .copying ⟨1, 1⟩ (.input 0) 0 8 0 ∧
      (StoreInTime s ⟨1, 1⟩ ↔ (inFlight s).length ≤ 1 ∨ ResetAfter s.dev.conv ⟨1, 1⟩) := by
  obtain ⟨tr, s, hr, hacts, hp⟩ := exists_run_of_exec default default (lateStore 1)
    (storing ⟨1, 1⟩) (by decide +kernel)
  have hc : s.runner = .copying ⟨1, 1⟩ (.input 0) 0 8 0 := by simpa [storing] using hp
  exact ⟨tr, s, hr, hacts, hc, store_in_time_iff (hr.mono fun _ _ _ => PrioStep.loose) hc⟩

/-- Event 3 has completed the first half again, and nothing was reset. -/
theorem store_late :
    ∃ tr s, SysRun default default tr s ∧ tr.map Prod.snd = lateStore 2 ∧
      s.runner = .copying ⟨1, 1⟩ (.input 0) 0 8 0 ∧ s.dev.adc.events = 3 ∧
      ¬ StoreInTime s ⟨1, 1⟩ := by
  obtain ⟨tr, s, hr, hacts, hp⟩ := exists_run_of_exec default default (lateStore 2)
    (fun s => storing ⟨1, 1⟩ s && s.dev.adc.events == 3 &&
      s.dev.conv == [.post ⟨1, 1⟩ .MSG_OK, .received ⟨1, 1⟩, .post ⟨2, 2⟩ .MSG_OK,
        .post ⟨1, 3⟩ .MSG_OK]) (by decide +kernel)
  simp only [Bool.and_eq_true, beq_iff_eq] at hp
  obtain ⟨⟨hstoring, hev⟩, hconv⟩ := hp
  refine ⟨tr, s, hr, hacts, by simpa [storing] using hstoring, hev, ?_⟩
  rintro (hlt | ⟨ev, lost, hmem, -⟩)
  · rw [hev] at hlt
    simp at hlt
  · rw [hconv] at hmem
    simp at hmem

end Stmdsp
