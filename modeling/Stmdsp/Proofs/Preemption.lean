import Stmdsp.Proofs.Switching

/-! The scheduler and the rule `allowed` let through the same runs of the device: every run
under the rule is one that the threads can take, with kernel calls between its steps that
bring the right thread to run. -/

namespace Stmdsp

open Kernel

namespace OS

/-- Kernel calls alone lead from one state to the other. -/
structure Quietly (k : Layout) (o o' : OS) : Prop where
  run : ∃ tr, Run (OSStep k) o tr o' ∧ (tr.flatMap fun p => p.2.data) = []
  inv : o'.Inv
  sys : o'.sys = o.sys

namespace Quietly

variable {k : Layout} {o o' o'' : OS} {a : OSAct}

theorem refl (h : o.Inv) : Quietly k o o := ⟨⟨[], .nil, rfl⟩, h, rfl⟩

theorem trans (h : Quietly k o o') (h' : Quietly k o' o'') : Quietly k o o'' := by
  obtain ⟨tr, hr, hdata⟩ := h.run
  obtain ⟨tr', hr', hdata'⟩ := h'.run
  exact ⟨⟨tr ++ tr', hr.append hr', by simp [hdata, hdata']⟩, h'.inv, h'.sys.trans h.sys⟩

theorem of_advance (h : o.Advance k a o') (he : o.enabled k a = true) (ha : a.data = []) :
    Quietly k o o' := by
  have hdata := h.data
  rw [ha] at hdata
  exact ⟨⟨_, Run.single ⟨he, h.act⟩, by simp [ha]⟩, h.inv, hdata.eq_of_nil⟩

end Quietly

namespace Inv

variable {k : Layout} {o : OS}

/-! ### Kernel calls that bring a thread to run -/

/-- The monitor thread goes to wait for messages if it does not yet. -/
theorem settle_monitor (h : o.Inv) (halive : o.sys.dead = false) (hs : SysInv o.sys)
    (hm : o.sys.monitor = .fetching) (hcnt : o.mMailbox.cnt = 0)
    (hr : o.kernel.blocked .runner ≠ none) (hmon : .monitor ∉ o.toCreate) :
    ∃ o', Quietly k o o' ∧ o'.toCreate = o.toCreate ∧
      o'.kernel.blocked =
        Function.update o.kernel.blocked .monitor (some .CH_STATE_QUEUED) := by
  cases hb : o.kernel.blocked .monitor with
  | some st =>
    have hqueued : st = .CH_STATE_QUEUED := by
      have hmem := h.population.waits _ _ hb
      simp only [Thread.waits, List.mem_cons, List.not_mem_nil, or_false] at hmem
      rcases hmem with rfl | rfl | rfl
      · exact absurd ((h.population.created _).mpr hb) hmon
      · rfl
      · cases h.handoff.monitor with
        | fetching _ _ hb' => exact absurd hb hb'
        | holding _ _ hm' => rw [hm] at hm'; cases hm'
        | sending _ _ hm' => rw [hm] at hm'; cases hm'
    refine ⟨o, .refl h, rfl, ?_⟩
    rw [← hqueued, ← hb, Function.update_eq_self]
  | none =>
    have hf : o.fetched = none := by
      cases h.handoff.monitor with
      | fetching hf => exact hf
      | holding _ _ hm' => rw [hm] at hm'; cases hm'
      | sending _ _ hm' => rw [hm] at hm'; cases hm'
    have he : o.enabled k .await = true := by
      simp [enabled, halive, h.current_monitor hb hr, hf, h.reset_false hs,
        MailboxRing.chMBGetUsedCountI, hcnt]
    obtain ⟨o', hadv, hto, hblocked⟩ := h.await he
    exact ⟨o', .of_advance hadv he rfl, hto, hblocked⟩

/-- `main` creates the next thread. -/
theorem create_next (h : o.Inv) (halive : o.sys.dead = false) (hcur : o.kernel.current = .main)
    {tp : Thread} {rest : List Thread} (hl : o.toCreate = tp :: rest) :
    ∃ o', Quietly k o o' ∧ o'.toCreate = rest ∧
      o'.kernel.blocked = Function.update o.kernel.blocked tp none := by
  have he : o.enabled k .create = true := by simp [enabled, halive, hcur, hl]
  obtain ⟨o', hadv, hto, hblocked⟩ := h.create (k := k) hl
  exact ⟨o', .of_advance hadv he rfl, hto, hblocked⟩

theorem main_of_toCreate (h : o.Inv) (hne : o.toCreate ≠ []) : o.kernel.blocked .main = none := by
  by_contra hb
  exact hne (h.population.finished hb)

/-- What `main` has still to do ends with the command thread running, once that one does
not sleep. -/
theorem comm_runs {l : List Thread} : ∀ {o : OS}, o.Inv → o.sys.dead = false → o.toCreate = l →
    o.kernel.blocked .monitor = some .CH_STATE_QUEUED →
    o.kernel.blocked .runner = some .CH_STATE_WTMSG →
    (o.kernel.blocked .comm = none ∨ o.kernel.blocked .comm = some .CH_STATE_WTSTART) →
    ∃ o', Quietly k o o' ∧ o'.kernel.current = .comm := by
  induction l with
  | nil =>
    intro o h halive hl hm hr hc
    have hcomm : o.kernel.blocked .comm = none := by
      refine hc.resolve_right fun hb => ?_
      have hmem := (h.population.created _).mpr hb
      rw [hl] at hmem
      exact List.not_mem_nil hmem
    rcases h.current_main_or_comm (by simp [hm]) (by simp [hr]) (.inr hcomm) with hcur | hcur
    · have he : o.enabled k .exit = true := by simp [enabled, halive, hcur, hl]
      obtain ⟨o', hadv, -, hblocked⟩ := h.exit he
      have hq : Quietly k o o' := .of_advance hadv he rfl
      refine ⟨o', hq, ?_⟩
      have hcur' := hq.inv.current_main_or_comm (by simp [hblocked, hm]) (by simp [hblocked, hr])
        (.inr (by simp [hblocked, hcomm]))
      refine hcur'.resolve_left fun hmain => ?_
      have hnone := hq.inv.blocked_current hmain
      simp [hblocked] at hnone
    · exact ⟨o, .refl h, hcur⟩
  | cons tp rest ih =>
    intro o h halive hl hm hr hc
    have hmain : o.kernel.blocked .main = none := h.main_of_toCreate (by simp [hl])
    rcases h.current_main_or_comm (by simp [hm]) (by simp [hr]) (.inl hmain) with hcur | hcur
    · obtain ⟨o', hq, hto, hblocked⟩ := h.create_next (k := k) halive hcur hl
      have hb : o.kernel.blocked tp = some .CH_STATE_WTSTART :=
        (h.population.created tp).mp (hl ▸ List.mem_cons_self)
      have hm' : .monitor ≠ tp := by rintro rfl; simp [hm] at hb
      have hr' : .runner ≠ tp := by rintro rfl; simp [hr] at hb
      have hc' : o'.kernel.blocked .comm = none ∨
          o'.kernel.blocked .comm = some .CH_STATE_WTSTART := by
        rw [hblocked]
        by_cases htp : .comm = tp
        · exact .inl (htp ▸ Function.update_self ..)
        · rwa [Function.update_of_ne htp]
      obtain ⟨o'', hq', hcur'⟩ := ih hq.inv (by rw [hq.sys, halive]) hto
        (by rw [hblocked, Function.update_of_ne hm', hm])
        (by rw [hblocked, Function.update_of_ne hr', hr]) hc'
      exact ⟨o'', hq.trans hq', hcur'⟩
    · exact ⟨o, .refl h, hcur⟩

/-- The command thread is woken up if it sleeps. -/
theorem wake_comm (h : o.Inv) (halive : o.sys.dead = false) :
    ∃ o', Quietly k o o' ∧
      (o'.kernel.blocked .comm = none ∨ o'.kernel.blocked .comm = some .CH_STATE_WTSTART) ∧
      ∀ t, t ≠ .comm → o'.kernel.blocked t = o.kernel.blocked t := by
  cases hb : o.kernel.blocked .comm with
  | none => exact ⟨o, .refl h, .inl hb, fun _ _ => rfl⟩
  | some st =>
    have hmem := h.population.waits _ _ hb
    simp only [Thread.waits, List.mem_cons, List.not_mem_nil, or_false] at hmem
    rcases hmem with rfl | rfl | rfl
    · exact ⟨o, .refl h, .inr hb, fun _ _ => rfl⟩
    · have he : o.enabled k (.timer .comm) = true := by
        simp [enabled, halive, (blocked_eq_some hb).1]
      obtain ⟨o', hadv, -, hblocked⟩ := h.timer he
      refine ⟨o', .of_advance hadv he rfl, .inl (by rw [hblocked, Function.update_self]), ?_⟩
      intro t ht
      rw [hblocked, Function.update_of_ne ht]
    · have he : o.enabled k (.usb .MSG_OK) = true := by
        simp [enabled, halive, h.serial.trans (if_pos hb)]
      obtain ⟨o', hadv, -, hblocked⟩ := h.usb he
      refine ⟨o', .of_advance hadv he rfl, .inl (by rw [hblocked, Function.update_self]), ?_⟩
      intro t ht
      rw [hblocked, Function.update_of_ne ht]

/-- With nothing to be handed over the command thread comes to run. -/
theorem reach_comm (h : o.Inv) (hs : SysInv o.sys) (halive : o.sys.dead = false)
    (hw : o.sys.runner = .waiting) (hm : o.sys.monitor = .fetching)
    (hq : o.sys.dev.mMailbox.queue = []) :
    ∃ o', Quietly k o o' ∧ o'.kernel.current = .comm := by
  have hr : o.kernel.blocked .runner = some .CH_STATE_WTMSG := by
    cases h.handoff.runner with
    | before _ htop => rw [hw] at htop; cases htop
    | asleep hb => exact hb
    | awake _ hr =>
      cases h.handoff.monitor with
      | fetching _ _ hb => exact absurd (hr hw) hb
      | holding _ _ hm' => rw [hm] at hm'; cases hm'
      | sending _ _ hm' => rw [hm] at hm'; cases hm'
  have hrunner : .runner ∉ o.toCreate := h.population.not_toCreate (by simp [hr])
  obtain ⟨o₁, hq₁, -, hb₁⟩ := h.settle_monitor (k := k) halive hs hm (h.cnt_of_queue hq)
    (by simp [hr]) fun hmem => hrunner (h.population.runner_of_monitor hmem)
  obtain ⟨o₂, hq₂, hc₂, hb₂⟩ := hq₁.inv.wake_comm (k := k) (by rw [hq₁.sys, halive])
  obtain ⟨o₃, hq₃, hcur⟩ := hq₂.inv.comm_runs (k := k) (by rw [hq₂.sys, hq₁.sys, halive]) rfl
    (by rw [hb₂ .monitor (by decide), hb₁, Function.update_self])
    (by rw [hb₂ .runner (by decide), hb₁, Function.update_of_ne (by decide), hr]) hc₂
  exact ⟨o₃, (hq₁.trans hq₂).trans hq₃, hcur⟩

/-- The runner is blocked with everything that `main` creates behind it. -/
theorem current_main (h : o.Inv) (hmem : .runner ∈ o.toCreate)
    (hm : o.kernel.blocked .monitor ≠ none) : o.kernel.current = .main := by
  have hr : o.kernel.blocked .runner ≠ none := by
    rw [(h.population.created _).mp hmem]
    exact Option.some_ne_none _
  have hc : o.kernel.blocked .comm ≠ none := by
    rw [(h.population.created _).mp (h.population.comm_of_runner hmem)]
    exact Option.some_ne_none _
  have hmain := h.main_of_toCreate (List.ne_nil_of_mem hmem)
  exact (h.current_main_or_comm hm hr (.inl hmain)).resolve_right fun hcomm =>
    hc (h.blocked_current hcomm)

/-- With the monitor thread created, `main` creates the runner, which then runs. -/
theorem create_runner (h : o.Inv) (hs : SysInv o.sys) (halive : o.sys.dead = false)
    (hmon : .monitor ∉ o.toCreate) (hmem : .runner ∈ o.toCreate) :
    ∃ o', Quietly k o o' ∧ o'.kernel.current = .runner := by
  have hquiet := hs.quiet (h.quiet (h.population.comm_of_runner hmem))
  have hr : o.kernel.blocked .runner ≠ none := by
    rw [(h.population.created _).mp hmem]
    exact Option.some_ne_none _
  obtain ⟨o₁, hq₁, hto, hb₁⟩ := h.settle_monitor (k := k) halive hs hquiet.monitor
    (h.cnt_of_queue hquiet.queue) hr hmon
  have hm : o₁.kernel.blocked .monitor ≠ none := by simp [hb₁]
  obtain ⟨rest, hl⟩ := h.population.head_runner hmon hmem
  have hcur := hq₁.inv.current_main (hto ▸ hmem) hm
  obtain ⟨o₂, hq₂, -, hb₂⟩ :=
    hq₁.inv.create_next (k := k) (by rw [hq₁.sys, halive]) hcur (hto.trans hl)
  exact ⟨o₂, hq₁.trans hq₂, hq₂.inv.current_runner (by rw [hb₂, Function.update_self])⟩

/-- A runner that does not wait comes to run. -/
theorem reach_runner (h : o.Inv) (hs : SysInv o.sys) (halive : o.sys.dead = false)
    (hw : o.sys.runner ≠ .waiting) : ∃ o', Quietly k o o' ∧ o'.kernel.current = .runner := by
  cases h.handoff.runner with
  | awake hb => exact ⟨o, .refl h, h.current_runner hb⟩
  | asleep _ hr => exact absurd hr hw
  | before hb =>
    have hmem : .runner ∈ o.toCreate := (h.population.created _).mpr hb
    by_cases hmon : .monitor ∈ o.toCreate
    · obtain ⟨rest, hl⟩ := h.population.head_monitor hmon
      have hm : o.kernel.blocked .monitor ≠ none := by
        rw [(h.population.created _).mp hmon]
        exact Option.some_ne_none _
      obtain ⟨o₁, hq₁, hto, hb₁⟩ :=
        h.create_next (k := k) halive (h.current_main hmem hm) hl
      have hmon₁ : .monitor ∉ o₁.toCreate := hq₁.inv.population.not_toCreate (by simp [hb₁])
      have hmem₁ : .runner ∈ o₁.toCreate := by
        rw [hl] at hmem
        exact hto ▸ List.mem_of_ne_of_mem (by decide) hmem
      obtain ⟨o₂, hq₂, hcur⟩ := hq₁.inv.create_runner (k := k) (by rw [hq₁.sys]; exact hs)
        (by rw [hq₁.sys, halive]) hmon₁ hmem₁
      exact ⟨o₂, hq₁.trans hq₂, hcur⟩
    · exact h.create_runner hs halive hmon hmem

/-- What the monitor thread has taken from the mailbox comes to the runner. -/
theorem reach_receive (h : o.Inv) (halive : o.sys.dead = false) (hw : o.sys.runner = .waiting)
    {msg : Msg} (hm : o.sys.monitor = .sending msg) :
    ∃ o', Quietly k o o' ∧ o'.kernel.current = .runner := by
  cases h.handoff.monitor with
  | fetching _ hm' => rw [hm] at hm'; cases hm'
  | holding msg' hf _ hb _ =>
    obtain ⟨-, -, -, hr⟩ := h.handoff.runner_of_holding hf
    have hrunner : o.kernel.blocked .runner ≠ none := by
      rw [show o.kernel.blocked .runner = _ from hr]
      exact Option.some_ne_none _
    have he : o.enabled k .send = true := by
      have hf' : o.fetched = some msg' := hf
      simp [enabled, halive, h.current_monitor hb hrunner, hf']
    obtain ⟨o', hadv, -, hblocked⟩ := h.send he
    have hq : Quietly k o o' := .of_advance hadv he rfl
    refine ⟨o', hq, hq.inv.current_runner ?_⟩
    rw [hblocked, Function.update_of_ne (by decide), Function.update_self]
  | sending _ _ _ hb _ _ =>
    refine ⟨o, .refl h, h.current_runner ?_⟩
    cases h.handoff.runner with
    | before _ htop => rw [hw] at htop; cases htop
    | asleep _ _ hne => exact absurd hb hne
    | awake hnone => exact hnone

/-- The monitor thread runs when there is a message to fetch. -/
theorem fetch_enabled (h : o.Inv) (hs : SysInv o.sys) (halive : o.sys.dead = false)
    (hw : o.sys.runner = .waiting) (hm : o.sys.monitor = .fetching)
    (hq : o.sys.dev.mMailbox.queue ≠ []) : o.enabled k .fetch = true := by
  have hcnt : 0 < o.mMailbox.cnt := by
    have heq : o.mMailbox.cnt = _ := h.handoff.ring.cnt_eq
    rw [heq]
    exact List.length_pos_of_ne_nil hq
  have hcomm := h.created_of_queue hs hcnt
  have hmon : .monitor ∉ o.toCreate := fun hmem =>
    hcomm (h.population.comm_of_runner (h.population.runner_of_monitor hmem))
  cases h.handoff.monitor with
  | holding _ _ hm' => rw [hm] at hm'; cases hm'
  | sending _ _ hm' => rw [hm] at hm'; cases hm'
  | fetching hf _ hne =>
    have hr : o.kernel.blocked .runner ≠ none := by
      cases h.handoff.runner with
      | before _ htop => rw [hw] at htop; cases htop
      | asleep hb =>
        rw [show o.kernel.blocked .runner = _ from hb]
        exact Option.some_ne_none _
      | awake _ hr => exact absurd (hr hw) hne
    have hb : o.kernel.blocked .monitor = none := by
      cases hb : o.kernel.blocked .monitor with
      | none => rfl
      | some st =>
        have hmem := h.population.waits _ _ hb
        simp only [Thread.waits, List.mem_cons, List.not_mem_nil, or_false] at hmem
        rcases hmem with rfl | rfl | rfl
        · exact absurd ((h.population.created _).mpr hb) hmon
        · exact absurd (h.handoff.asleep hb) hcnt.ne'
        · exact absurd hb hne
    have hf' : o.fetched = none := hf
    simp [enabled, halive, h.current_monitor hb hr, hf', MailboxRing.chMBGetUsedCountI, hcnt]

/-! ### Steps -/

/-- A step under the rule is the device's part of one that the threads come to. -/
theorem realize {a : SysAct} {s' : Sys} (h : o.Inv) (hs : SysInv o.sys)
    (hstep : PrioStep k o.sys a s') :
    ∃ o' x, Quietly k o o' ∧ o'.enabled k x = true ∧ x.data = [a] := by
  have halive := sysStep_alive hstep.2
  have hsome : ∀ {o' : OS}, Quietly k o o' → (sysStep k o'.sys a).isSome = true := by
    intro o' hq
    rw [hq.sys, hstep.2]
    rfl
  have hself := hsome (.refl h)
  cases a with
  | comm =>
    obtain ⟨hq, hm, -⟩ := quiescent_of_allowed hstep.1
    have hw : o.sys.runner = .waiting := by
      have hallowed := hstep.1
      simp only [allowed, Bool.and_eq_true, beq_iff_eq] at hallowed
      exact hallowed.1.1
    obtain ⟨o', hq', hcur⟩ := h.reach_comm (k := k) hs halive hw hm hq
    exact ⟨o', .sys .comm, hq', by simp [enabled, may, hcur, hsome hq'], rfl⟩
  | monitor =>
    have hw : o.sys.runner = .waiting := beq_iff_eq.mp hstep.1
    obtain ⟨hm, hq⟩ := monitorStep_fetches hs.reset (sysStep_act hstep.2)
    exact ⟨o, .fetch, .refl h, h.fetch_enabled hs halive hw hm hq, rfl⟩
  | runner x =>
    have hmove := runnerStep_moves (sysStep_act hstep.2)
    by_cases hreceive : x = .receive
    · subst hreceive
      cases hmove with
      | receive msg hw hm =>
        obtain ⟨o', hq, hcur⟩ := h.reach_receive (k := k) halive hw hm
        exact ⟨o', .receive, hq, by simp [enabled, hq.sys, halive, hcur, hw], rfl⟩
    · have hw : o.sys.runner ≠ .waiting := by
        cases hmove <;> first | exact absurd rfl hreceive | simp [*]
      obtain ⟨o', hq, hcur⟩ := h.reach_runner (k := k) hs halive hw
      by_cases hwait : x = .wait
      · subst hwait
        have htop := runnerStep_wait (sysStep_act hstep.2)
        exact ⟨o', .wait, hq, by simp [enabled, hq.sys, halive, hcur, htop], rfl⟩
      · refine ⟨o', .sys (.runner x), hq, ?_, rfl⟩
        have hmay : o'.may (.runner x) = true := by
          cases x <;> first | exact absurd rfl hwait | exact absurd rfl hreceive | simp [may, hcur]
        simp [enabled, hmay, hsome hq]
  | memFault lr =>
    have hw : o.sys.runner ≠ .waiting := by
      obtain ⟨ctx, hctx, -⟩ := faultStep_cases (sysStep_act hstep.2)
      intro hw
      rw [hw] at hctx
      cases hctx
    obtain ⟨o', hq, hcur⟩ := h.reach_runner (k := k) hs halive hw
    exact ⟨o', .sys (.memFault lr), hq, by simp [enabled, may, hcur, hsome hq], rfl⟩
  | host bytes => exact ⟨o, .sys (.host bytes), .refl h, hself, rfl⟩
  | adc capture => exact ⟨o, .sys (.adc capture), .refl h, hself, rfl⟩
  | dac full => exact ⟨o, .sys (.dac full), .refl h, hself, rfl⟩
  | hardFault lr => exact ⟨o, .sys (.hardFault lr), .refl h, hself, rfl⟩

end Inv

/-- Every run under the rule is the device's part of a run of the threads. -/
theorem exists_of_run {k : Layout} {b : Board} {tr : List (Sys × SysAct)} {s : Sys}
    (h : SysRun k b tr s) :
    ∃ tr' o, OSRun k b tr' o ∧ o.sys = s ∧
      (tr'.flatMap fun p => p.2.data) = tr.map Prod.snd := by
  induction h with
  | nil => exact ⟨[], OS.start b, .nil, rfl, rfl⟩
  | snoc hr hstep ih =>
    obtain ⟨tr', o, hrun, rfl, hdata⟩ := ih
    obtain ⟨o₁, x, hq, he, hx⟩ := (inv_of_run hrun).1.realize (sysInv_run hr) hstep
    obtain ⟨trq, hrunq, hdataq⟩ := hq.run
    obtain ⟨o₂, hadv⟩ := advances hq.inv (by rw [hq.sys]; exact sysInv_run hr) he
    have hprio := hadv.data
    rw [hx, hq.sys] at hprio
    refine ⟨tr' ++ trq ++ [(o₁, x)], o₂, (hrun.append hrunq).snoc ⟨he, hadv.act⟩, ?_, ?_⟩
    · exact Option.some.inj (hprio.of_single.2.symm.trans hstep.2)
    · simp [hdata, hdataq, hx]

/-- The device takes exactly the steps under the rule. -/
theorem schedules_exact (k : Layout) (b : Board) (acts : List SysAct) (s : Sys) :
    (∃ tr o, OSRun k b tr o ∧ o.sys = s ∧ (tr.flatMap fun p => p.2.data) = acts) ↔
      ∃ tr, SysRun k b tr s ∧ tr.map Prod.snd = acts := by
  constructor
  · rintro ⟨tr, o, hr, rfl, rfl⟩
    exact (inv_of_run hr).2
  · rintro ⟨tr, hr, rfl⟩
    exact exists_of_run hr

end OS

end Stmdsp
