import Stmdsp.Proofs.Quiescence

/-! No ADC event is silently lost: every message posted to the mailbox is received
by the runner in posting order, was in the mailbox when an overrun reset it, or is
still on its way. -/

namespace Stmdsp

/-! ### The history of messages -/

def posted (conv : List ConvEvent) : List Msg :=
  conv.filterMap fun
    | .post msg .MSG_OK => some msg
    | _ => none

def receivedMsgs (conv : List ConvEvent) : List Msg :=
  conv.filterMap fun
    | .received msg => some msg
    | _ => none

/-- The messages that were in the mailbox at some reset. -/
def dropped (conv : List ConvEvent) : List Msg :=
  conv.flatMap fun
    | .reset _ lost => lost
    | _ => []

/-- Posted and not yet received. -/
def inFlight (s : Sys) : List Msg := s.monitor.held ++ s.dev.mMailbox.queue

section History

variable (l : List ConvEvent) (msg : Msg) (ev : ℕ) (lost : List Msg)

@[simp] theorem posted_append (l' : List ConvEvent) : posted (l ++ l') = posted l ++ posted l' :=
  List.filterMap_append

@[simp] theorem receivedMsgs_append (l' : List ConvEvent) :
    receivedMsgs (l ++ l') = receivedMsgs l ++ receivedMsgs l' :=
  List.filterMap_append

@[simp] theorem dropped_append (l' : List ConvEvent) : dropped (l ++ l') = dropped l ++ dropped l' :=
  List.flatMap_append

theorem history_post : posted [.post msg .MSG_OK] = [msg] ∧ receivedMsgs [.post msg .MSG_OK] = [] ∧
    dropped [.post msg .MSG_OK] = [] := ⟨rfl, rfl, rfl⟩

theorem history_received : posted [.received msg] = [] ∧ receivedMsgs [.received msg] = [msg] ∧
    dropped [.received msg] = [] := ⟨rfl, rfl, rfl⟩

theorem history_reset : posted [.reset ev lost, .abort] = [] ∧
    receivedMsgs [.reset ev lost, .abort] = [] ∧ dropped [.reset ev lost, .abort] = lost :=
  ⟨rfl, rfl, by simp [dropped]⟩

theorem history_aborts {l : List ConvEvent} (h : OnlyAborts l) :
    posted l = [] ∧ receivedMsgs l = [] ∧ dropped l = [] := by
  induction l with
  | nil => exact ⟨rfl, rfl, rfl⟩
  | cons e l ih =>
    obtain rfl := h e (List.mem_cons_self ..)
    exact ih fun e he => h e (List.mem_cons_of_mem _ he)

end History

/-! ### The invariant -/

structure MailInv (s : Sys) : Prop where
  /-- The measuring handler is only ever set while the mailbox is empty. -/
  measure : s.dev.adc.mOperation = some .adcReadHandlerMeasure → s.dev.mMailbox.queue = []
  account : (posted s.dev.conv).Perm
    (receivedMsgs s.dev.conv ++ dropped s.dev.conv ++ inFlight s)
  order : (receivedMsgs s.dev.conv ++ inFlight s).Sublist (posted s.dev.conv)
  fresh : ∀ m ∈ posted s.dev.conv, m.event ≤ s.dev.adc.events
  nodup : (posted s.dev.conv).Nodup

theorem mailInv_boot (b : Board) : MailInv (boot b) where
  measure := fun _ => rfl
  account := .refl _
  order := .refl _
  fresh := by simp [boot, powerUp, posted]
  nodup := List.nodup_nil

section Steps

variable {s s' : Sys}

/-- A step that leaves the history and the messages in flight alone. -/
theorem MailInv.of_same (h : MailInv s) (hp : posted s'.dev.conv = posted s.dev.conv)
    (hr : receivedMsgs s'.dev.conv ++ inFlight s' = receivedMsgs s.dev.conv ++ inFlight s)
    (hd : dropped s'.dev.conv = dropped s.dev.conv) (hev : s.dev.adc.events ≤ s'.dev.adc.events)
    (hm : s'.dev.adc.mOperation = some .adcReadHandlerMeasure → s'.dev.mMailbox.queue = []) :
    MailInv s' := by
  have hperm : (receivedMsgs s'.dev.conv ++ dropped s'.dev.conv ++ inFlight s').Perm
      (receivedMsgs s.dev.conv ++ dropped s.dev.conv ++ inFlight s) := by
    have hswap : ∀ a b c : List Msg, (a ++ b ++ c).Perm (b ++ (a ++ c)) := fun a b c => by
      rw [← List.append_assoc]
      exact List.perm_append_comm.append_right c
    rw [hd]
    exact (hswap _ _ _).trans (hr ▸ (hswap _ _ _).symm)
  refine ⟨hm, ?_, ?_, ?_, ?_⟩
  · rw [hp]
    exact h.account.trans hperm.symm
  · rw [hp, hr]
    exact h.order
  · rw [hp]
    exact fun m hmem => (h.fresh m hmem).trans hev
  · rw [hp]
    exact h.nodup

theorem inFlight_eq (hm : s'.monitor = s.monitor) :
    inFlight s' = s.monitor.held ++ s'.dev.mMailbox.queue := by
  rw [inFlight, hm]

/-- A post adds the newest message at the end. -/
theorem MailInv.post {code : ℕ} (h : MailInv s)
    (hv : s'.dev.mail = ⟨some .adcReadHandler,
      s.dev.mMailbox.queue ++ [⟨code, s.dev.adc.events + 1⟩],
      s.dev.conv ++ [.post ⟨code, s.dev.adc.events + 1⟩ .MSG_OK]⟩)
    (hev : s'.dev.adc.events = s.dev.adc.events + 1) (hm : s'.monitor = s.monitor) : MailInv s' := by
  simp only [Device.mail, MailView.mk.injEq] at hv
  obtain ⟨hop, hq, hc⟩ := hv
  obtain ⟨hp, hr, hd⟩ := history_post ⟨code, s.dev.adc.events + 1⟩
  have hflight : inFlight s' = inFlight s ++ [⟨code, s.dev.adc.events + 1⟩] := by
    rw [inFlight_eq hm, hq, inFlight, List.append_assoc]
  refine ⟨by simp [hop], ?_, ?_, ?_, ?_⟩
  · rw [hc, hflight, posted_append, receivedMsgs_append, dropped_append, hp, hr, hd,
      List.append_nil, List.append_nil, ← List.append_assoc]
    exact h.account.append_right _
  · rw [hc, hflight, posted_append, receivedMsgs_append, hp, hr, List.append_nil,
      ← List.append_assoc]
    exact h.order.append_right _
  · rw [hc, posted_append, hp, hev]
    intro m hmem
    rcases List.mem_append.mp hmem with hmem | hmem
    · exact (h.fresh m hmem).trans (Nat.le_succ _)
    · rw [List.mem_singleton.mp hmem]
  · rw [hc, posted_append, hp]
    refine h.nodup.append (List.nodup_singleton _) ?_
    intro m hmem hlast
    have := h.fresh m hmem
    rw [List.mem_singleton.mp hlast] at this
    simp at this

/-- A reset moves what is in the mailbox to the dropped messages. -/
theorem MailInv.reset (h : MailInv s)
    (hv : s'.dev.mail = ⟨some .adcReadHandler, [],
      s.dev.conv ++ [.reset (s.dev.adc.events + 1) s.dev.mMailbox.queue, .abort]⟩)
    (hev : s'.dev.adc.events = s.dev.adc.events + 1) (hm : s'.monitor = s.monitor) : MailInv s' := by
  simp only [Device.mail, MailView.mk.injEq] at hv
  obtain ⟨hop, hq, hc⟩ := hv
  obtain ⟨hp, hr, hd⟩ := history_reset (s.dev.adc.events + 1) s.dev.mMailbox.queue
  have hflight : inFlight s' = s.monitor.held := by rw [inFlight_eq hm, hq, List.append_nil]
  refine ⟨by simp [hop], ?_, ?_, ?_, ?_⟩
  · rw [hc, hflight, posted_append, receivedMsgs_append, dropped_append, hp, hr, hd,
      List.append_nil, List.append_nil]
    refine h.account.trans ?_
    simp only [inFlight, List.append_assoc]
    exact (List.perm_append_comm.append_left _).append_left _
  · rw [hc, hflight, posted_append, receivedMsgs_append, hp, hr, List.append_nil, List.append_nil]
    refine List.Sublist.trans ?_ h.order
    exact (List.sublist_append_left _ _).append_left _
  · rw [hc, posted_append, hp, List.append_nil, hev]
    exact fun m hmem => (h.fresh m hmem).trans (Nat.le_succ _)
  · rw [hc, posted_append, hp, List.append_nil]
    exact h.nodup

theorem MailInv.adc {aborted : Bool} (h : MailInv s)
    (he : AdcEffect (s.dev.adc.events + 1) s.dev.mail s'.dev.mail aborted)
    (hev : s'.dev.adc.events = s.dev.adc.events + 1) (hm : s'.monitor = s.monitor) : MailInv s' := by
  cases he with
  | ignored hop hv =>
    simp only [Device.mail, MailView.mk.injEq] at hv
    obtain ⟨hop', hq, hc⟩ := hv
    have hflight : inFlight s' = inFlight s := by rw [inFlight_eq hm, hq, inFlight]
    exact h.of_same (by rw [hc]) (by rw [hc, hflight]) (by rw [hc]) (by omega)
      fun hmeas => by rw [hq]; exact h.measure (hop' ▸ hmeas)
  | posted code _ _ hv => exact h.post hv hev hm
  | reset _ _ hv => exact h.reset hv hev hm
  | lost msg hop hfull _ =>
    -- The measuring handler is only set with an empty mailbox, so it is never full here.
    have hempty : s.dev.mMailbox.queue = [] := h.measure hop
    simp [Device.mail, hempty] at hfull

theorem MailInv.step {k : Layout} {a : SysAct} (h : MailInv s) (hi : SysInv s)
    (hs : PrioStep k s a s') : MailInv s' := by
  obtain ⟨hallowed, hstep⟩ := hs
  by_cases ha : a = .comm
  · subst ha
    obtain ⟨-, hmail, hm, -⟩ := hi.comm.step (sysStep_act hstep)
    have hq := (quiescent_of_allowed hallowed).queue
    have hflight : inFlight s' = inFlight s := by rw [inFlight_eq hm, hmail.mMailbox, inFlight]
    exact h.of_same (by rw [hmail.conv]) (by rw [hmail.conv, hflight]) (by rw [hmail.conv])
      hmail.events.ge fun _ => by rw [hmail.mMailbox]; exact hq
  cases (sysStep_effect hi.reset hstep).1 with
  | comm _ => exact absurd rfl ha
  | fetch msg hm hm' hq _ hop hc hev =>
    refine h.of_same (by rw [hc]) ?_ (by rw [hc]) hev.ge fun hmeas => ?_
    · rw [hc, inFlight, inFlight, hm, hm', hq]
      rfl
    · rw [hop] at hmeas
      rw [h.measure hmeas] at hq
      simp at hq
  | receive msg _ _ hm hm' hmail hev =>
    simp only [Device.mail, MailView.mk.injEq] at hmail
    obtain ⟨hop, hq, hc⟩ := hmail
    obtain ⟨hp, hr, hd⟩ := history_received msg
    refine h.of_same (by rw [hc, posted_append, hp, List.append_nil]) ?_
      (by rw [hc, dropped_append, hd, List.append_nil]) hev.ge fun hmeas => ?_
    · rw [hc, receivedMsgs_append, hr, inFlight, inFlight, hm, hm', hq, List.append_assoc]
      rfl
    · rw [hq]
      exact h.measure (hop ▸ hmeas)
  | adc _ _ _ he hev hm => exact h.adc he hev hm
  | work _ aborts hab hmail hev hm _ =>
    simp only [Device.mail, MailView.mk.injEq] at hmail
    obtain ⟨hop, hq, hc⟩ := hmail
    obtain ⟨hp, hr, hd⟩ := history_aborts hab
    have hflight : inFlight s' = inFlight s := by rw [inFlight_eq hm, hq, inFlight]
    refine h.of_same (by rw [hc, posted_append, hp, List.append_nil])
      (by rw [hc, receivedMsgs_append, hr, List.append_nil, hflight])
      (by rw [hc, dropped_append, hd, List.append_nil]) hev.ge fun hmeas => ?_
    rw [hq]
    exact h.measure (hop ▸ hmeas)

end Steps

theorem mailInv_run {k : Layout} {b : Board} {tr : List (Sys × SysAct)} {s : Sys}
    (h : SysRun k b tr s) : MailInv s := by
  refine (h.invariant (I := fun s => SysInv s ∧ MailInv s) ⟨sysInv_boot b, mailInv_boot b⟩ ?_).2
  exact fun s a s' hi hs => ⟨hi.1.step hs, hi.2.step hi.1 hs⟩

/-- The posted messages that were not received are those dropped or in flight. -/
theorem MailInv.not_received {s : Sys} (h : MailInv s) (msg : Msg) :
    (msg ∈ posted s.dev.conv ∧ msg ∉ receivedMsgs s.dev.conv) ↔
      (msg ∈ dropped s.dev.conv ∨ msg ∈ inFlight s) := by
  have hnodup := h.account.nodup_iff.mp h.nodup
  rw [List.append_assoc] at hnodup
  have hdisj := (List.nodup_append'.mp hnodup).2.2
  rw [h.account.mem_iff, List.append_assoc, ← List.mem_append]
  constructor
  · rintro ⟨hmem, hnot⟩
    exact (List.mem_append.mp hmem).resolve_left hnot
  · exact fun hmem => ⟨List.mem_append.mpr (.inr hmem), fun hrec => hdisj hrec hmem⟩

/-- Every event that finds a handler posts its message or resets the mailbox and
aborts; the runner receives messages in posting order and each once; and what it
does not receive was in the mailbox at a reset or is still on its way. -/
theorem messages_accounted {k : Layout} {b : Board} {tr : List (Sys × SysAct)} {s : Sys}
    (h : SysRun k b tr s) :
    (∀ capture s', PrioStep k s (.adc capture) s' → s.dev.adc.mOperation ≠ none →
      (∃ msg, s'.dev.mMailbox.queue = s.dev.mMailbox.queue ++ [msg] ∧
        s'.dev.conv = s.dev.conv ++ [.post msg .MSG_OK]) ∨
      (s'.dev.mMailbox.queue = [] ∧ s'.dev.conv =
        s.dev.conv ++ [.reset s'.dev.adc.events s.dev.mMailbox.queue, .abort])) ∧
    (receivedMsgs s.dev.conv).Sublist (posted s.dev.conv) ∧
    (posted s.dev.conv).Nodup ∧ (receivedMsgs s.dev.conv).Nodup ∧
    ∀ msg, (msg ∈ posted s.dev.conv ∧ msg ∉ receivedMsgs s.dev.conv) ↔
      (msg ∈ dropped s.dev.conv ∨ msg ∈ inFlight s) := by
  have hinv := mailInv_run h
  have hsub : (receivedMsgs s.dev.conv).Sublist (posted s.dev.conv) :=
    (List.sublist_append_left _ _).trans hinv.order
  refine ⟨fun capture s' hs hop => ?_, hsub, hinv.nodup, hinv.nodup.sublist hsub,
    hinv.not_received⟩
  obtain ⟨aborted, -, he, hev, -⟩ := adcStep_spec (sysInv_run h).reset (sysStep_act hs.2)
  cases he with
  | ignored hnone _ => exact absurd hnone hop
  | posted code _ _ hv =>
    simp only [Device.mail, MailView.mk.injEq] at hv
    exact .inl ⟨_, hv.2⟩
  | reset _ _ hv =>
    simp only [Device.mail, MailView.mk.injEq] at hv
    exact .inr (by rw [hev]; exact hv.2)
  | lost msg hmeas hfull _ =>
    have hempty : s.dev.mMailbox.queue = [] := hinv.measure hmeas
    simp [Device.mail, hempty] at hfull

/-- Four events while the runner is busy with the first: the last one resets the
mailbox. -/
def overrunSession : List SysAct :=
  firstMessage.append [.adc fun _ => 8, .adc fun _ => 9, .adc fun _ => 10]

theorem messages_accounted_overrun :
    ∃ tr s, SysRun default default tr s ∧ tr.map Prod.snd = overrunSession ∧
      posted s.dev.conv = [⟨1, 1⟩, ⟨2, 2⟩, ⟨1, 3⟩] ∧ dropped s.dev.conv = [⟨2, 2⟩, ⟨1, 3⟩] ∧
      (∀ msg, (msg ∈ posted s.dev.conv ∧ msg ∉ receivedMsgs s.dev.conv) ↔
        (msg ∈ dropped s.dev.conv ∨ msg ∈ inFlight s)) := by
  obtain ⟨tr, s, hr, hacts, hp⟩ := exists_run_of_exec default default overrunSession
    (fun s => posted s.dev.conv == [⟨1, 1⟩, ⟨2, 2⟩, ⟨1, 3⟩] &&
      dropped s.dev.conv == [⟨2, 2⟩, ⟨1, 3⟩]) (by decide +kernel)
  simp only [Bool.and_eq_true, beq_iff_eq] at hp
  exact ⟨tr, s, hr, hacts, hp.1, hp.2, (messages_accounted hr).2.2.2.2⟩

end Stmdsp
