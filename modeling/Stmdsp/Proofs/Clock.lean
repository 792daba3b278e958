import Stmdsp.Proofs.Converters

/-! The reference count of the sampling clock: `m_runcount` counts the active
converters and the timer runs while there is one, as long as `stopGenerator` is
only used on a running generator. -/

namespace Stmdsp

open Proc

def busy (s : DriverState) : ℕ := if s = .ACTIVE then 1 else 0

@[simp] theorem busy_active : busy .ACTIVE = 1 := rfl
@[simp] theorem busy_ready : busy .READY = 0 := rfl

namespace ConverterView

/-- The number of active converters among the ADC and the two DAC channels. -/
def active (v : ConverterView) : ℕ :=
  busy v.adcDriver.state + busy (v.dac 0).state + busy (v.dac 1).state

/-- ADC and DAC channel 0 follow the run status. -/
structure Coupled (v : ConverterView) : Prop where
  conversion : (v.runStatus = .Idle ∧ v.adcDriver.state = .READY ∧ (v.dac 0).state = .READY) ∨
    (v.runStatus = .Running ∧ v.adcDriver.state = .ACTIVE ∧ (v.dac 0).state = .ACTIVE)
  generator : (v.dac 1).state = .READY ∨ (v.dac 1).state = .ACTIVE

theorem active_le (v : ConverterView) : v.active ≤ 3 := by
  unfold active busy
  split_ifs <;> omega

end ConverterView

/-- The count and the timer agree with `k` active users. -/
structure Counts (runcount : UInt32) (timer : Option UInt32) (k : ℕ) : Prop where
  count : runcount.toNat = k
  timer : timer.isSome = true ↔ 0 < k

theorem Counts.start {c c' : SClockState} {k : ℕ} (h : Counts c.mRuncount c.timer k) (hk : k ≤ 3)
    (hc : clockStart c = some c') : Counts c'.mRuncount c'.timer (k + 1) := by
  have hsucc : (c.mRuncount + 1).toNat = k + 1 := by
    rw [UInt32.toNat_add, h.count, UInt32.toNat_one]
    omega
  unfold clockStart at hc
  split at hc
  · split at hc
    · obtain rfl := Option.some.inj hc
      exact ⟨hsucc, by simp⟩
    · simp at hc
  · rename_i h0
    obtain rfl := Option.some.inj hc
    have hpos : 0 < k := by
      rcases Nat.eq_zero_or_pos k with hz | hp
      · exact absurd (UInt32.toNat_inj.mp (by rw [h.count, hz]; rfl)) h0
      · exact hp
    exact ⟨hsucc, by have := h.timer; simp only [this]; omega⟩

theorem Counts.stop {c : SClockState} {k : ℕ} (h : Counts c.mRuncount c.timer (k + 1)) :
    Counts (clockStop c).mRuncount (clockStop c).timer k := by
  have hpred : (c.mRuncount - 1).toNat = k := by
    have hlt := c.mRuncount.toNat_lt
    rw [h.count] at hlt
    rw [UInt32.toNat_sub, h.count, UInt32.toNat_one]
    omega
  refine ⟨hpred, ?_⟩
  have hzero : c.mRuncount - 1 = 0 ↔ k = 0 := by
    rw [← UInt32.toNat_inj, hpred, UInt32.toNat_zero]
  have ht := h.timer
  simp only [clockStop, hzero]
  split
  · simp_all
  · rw [ht]; omega

/-- A stop without a matching start breaks the count. -/
theorem Counts.not_stop {c : SClockState} {k : ℕ} (h : Counts c.mRuncount c.timer k) :
    ¬ Counts (clockStop c).mRuncount (clockStop c).timer k := by
  intro h'
  have := h'.count
  simp only [clockStop, UInt32.toNat_sub, h.count, UInt32.toNat_one] at this
  omega

/-- What one step of a command run does to the clock and the converters. -/
inductive ConverterEffect (d : Device) (a : CommAct) (d' : Device) : Prop where
  | leaves (h : Leaves Device.converters d d')
      (hw : a = .comm → nextCommand d ≠ some 'w'.toUInt8)
  | startConversion (c₁ c₂ : SClockState) (hidle : d.runStatus = .Idle)
      (hc₁ : clockStart d.sclock = some c₁) (hc₂ : clockStart c₁ = some c₂)
      (hv : d'.converters = ⟨.Running, c₂.mRuncount, c₂.timer, ⟨.ACTIVE, d.In.mSize⟩,
        Function.update d.dac 0 ⟨.ACTIVE, d.Out.mSize⟩⟩)
      (ht : ∀ n, .clockStop n ∈ d'.trace → .clockStop n ∈ d.trace)
      (hw : a = .comm → nextCommand d ≠ some 'w'.toUInt8)
  | stopConversion (hrun : d.runStatus = .Running)
      (hv : d'.converters = ⟨.Idle, (clockStop (clockStop d.sclock)).mRuncount,
        (clockStop (clockStop d.sclock)).timer, { d.adc.driver with state := .READY },
        Function.update d.dac 0 { d.dac 0 with state := .READY }⟩)
      (ht : ∀ n, .clockStop n ∈ d'.trace → .clockStop n ∈ d.trace ∨ n = d.sclock.mRuncount ∨
        n = (clockStop d.sclock).mRuncount)
      (hw : a = .comm → nextCommand d ≠ some 'w'.toUInt8)
  | startGenerator (c : SClockState) (hready : dacStartable (d.dac 1).state = true)
      (hc : clockStart d.sclock = some c)
      (hv : d'.converters = ⟨d.runStatus, c.mRuncount, c.timer, d.adc.driver,
        Function.update d.dac 1 ⟨.ACTIVE, d.Generator.mSize⟩⟩)
      (ht : ∀ n, .clockStop n ∈ d'.trace → .clockStop n ∈ d.trace)
      (hw : a = .comm → nextCommand d ≠ some 'w'.toUInt8)
  | stopGenerator (ha : a = .comm) (hw : nextCommand d = some 'w'.toUInt8)
      (hv : d'.converters = ⟨d.runStatus, (clockStop d.sclock).mRuncount,
        (clockStop d.sclock).timer, d.adc.driver,
        Function.update d.dac 1 { d.dac 1 with state := .READY }⟩)
      (ht : ∀ n, .clockStop n ∈ d'.trace → .clockStop n ∈ d.trace ∨ n = d.sclock.mRuncount)

theorem dispatch_R : dispatch 'R'.toUInt8 = startConversion := rfl
theorem dispatch_W : dispatch 'W'.toUInt8 = startGenerator := rfl

theorem leaves_received (d : Device) (c : UInt8) (rest : List UInt8) :
    Leaves Device.converters d (received d c rest) :=
  ⟨rfl, [.read 1, .command c], by simp [received, Device.logCall], by
    intro x hx
    simp only [List.mem_cons, List.not_mem_nil, or_false] at hx
    rcases hx with rfl | rfl <;> rfl⟩

section Effects

variable {d d' : Device} {rest : List UInt8}

theorem effect_R (hin : d.input = 'R'.toUInt8 :: rest)
    (h : startConversion.run (received d 'R'.toUInt8 rest) = .ok () d') :
    ConverterEffect d .comm d' := by
  have hw : CommAct.comm = .comm → nextCommand d ≠ some 'w'.toUInt8 := fun _ => by
    rw [nextCommand, hin, List.head?_cons]; decide
  by_cases hidle : (received d 'R'.toUInt8 rest).runStatus = .Idle
  · obtain ⟨-, -, -, c₁, c₂, hc₁, hc₂, rfl⟩ := startConversion_ok hidle h
    exact .startConversion c₁ c₂ hidle hc₁ hc₂ rfl (by simp [received, Device.logCall]) hw
  · rw [startConversion_rejected hidle, Outcome.ok.injEq] at h
    obtain ⟨-, rfl⟩ := h
    exact .leaves (.trans _ _ _ (leaves_received d _ rest) (.of_trace_eq rfl rfl)) hw

theorem effect_S (hin : d.input = 'S'.toUInt8 :: rest)
    (h : stopConversion.run (received d 'S'.toUInt8 rest) = .ok () d') :
    ConverterEffect d .comm d' := by
  have hw : CommAct.comm = .comm → nextCommand d ≠ some 'w'.toUInt8 := fun _ => by
    rw [nextCommand, hin, List.head?_cons]; decide
  by_cases hrun : (received d 'S'.toUInt8 rest).runStatus = .Running
  · obtain ⟨-, -, rfl⟩ := stopConversion_ok hrun h
    refine .stopConversion hrun rfl ?_ hw
    simp only [received, Device.logCall, List.mem_append, List.mem_singleton,
      Call.clockStop.injEq, reduceCtorEq, or_false]
    tauto
  · rw [stopConversion_rejected hrun, Outcome.ok.injEq] at h
    obtain ⟨-, rfl⟩ := h
    exact .leaves (.trans _ _ _ (leaves_received d _ rest) (.of_trace_eq rfl rfl)) hw

theorem effect_W (hin : d.input = 'W'.toUInt8 :: rest)
    (h : startGenerator.run (received d 'W'.toUInt8 rest) = .ok () d') :
    ConverterEffect d .comm d' := by
  obtain ⟨-, hready, c, hc, rfl⟩ := startGenerator_ok h
  exact .startGenerator c hready hc rfl (by simp [received, Device.logCall]) fun _ => by
    rw [nextCommand, hin, List.head?_cons]; decide

theorem effect_w (hin : d.input = 'w'.toUInt8 :: rest)
    (h : stopGenerator.run (received d 'w'.toUInt8 rest) = .ok () d') :
    ConverterEffect d .comm d' := by
  rw [stopGenerator, dac_stop_run] at h
  split at h
  · rw [Outcome.ok.injEq] at h
    obtain ⟨-, rfl⟩ := h
    exact .stopGenerator rfl (by rw [nextCommand, hin]; rfl) rfl (by simp [received, Device.logCall])
  · simp at h

theorem effect_other {c : UInt8} (hin : d.input = c :: rest) (hc : c ∉ converterCommands)
    (h : (dispatch c).run (received d c rest) = .ok () d') : ConverterEffect d .comm d' := by
  have hrun := (converters_dispatch hc).run Leaves.refl Leaves.trans (received d c rest)
  rw [h] at hrun
  refine .leaves (.trans _ _ _ (leaves_received d c rest) hrun) fun _ hw => hc ?_
  rw [nextCommand, hin, List.head?_cons, Option.some.injEq] at hw
  rw [hw]
  decide

theorem converterEffect {a : CommAct} (h : CommStep d a d') : ConverterEffect d a d' := by
  cases a with
  | host bytes =>
    obtain rfl := h
    exact .leaves (.of_trace_eq rfl rfl) (by simp)
  | env =>
    refine .leaves (.of_trace_eq ?_ h.trace) (by simp)
    simp only [Device.converters, h.runStatus, h.sclock, h.adcDriver, h.dac]
  | comm =>
    rw [CommStep, threadComm_run] at h
    cases hin : d.input with
    | nil =>
      rw [hin, Outcome.ok.injEq] at h
      obtain ⟨-, rfl⟩ := h
      exact .leaves (.refl d) (by simp [nextCommand, hin])
    | cons c rest =>
      rw [hin] at h
      by_cases hc : c ∈ converterCommands
      · simp only [converterCommands, List.mem_cons, List.not_mem_nil, or_false] at hc
        rcases hc with rfl | rfl | rfl | rfl
        · exact effect_R hin h
        · exact effect_S hin h
        · exact effect_W hin h
        · exact effect_w hin h
      · exact effect_other hin hc h

end Effects

/-! ### Invariants over runs -/

theorem coupled_powerUp (b : Board) : (powerUp b).converters.Coupled :=
  ⟨.inl ⟨rfl, rfl, rfl⟩, .inl rfl⟩

theorem ConverterEffect.coupled {d d' : Device} {a : CommAct} (he : ConverterEffect d a d')
    (h : d.converters.Coupled) : d'.converters.Coupled := by
  cases he with
  | leaves hl _ => rwa [hl.1]
  | startConversion c₁ c₂ _ _ _ hv _ _ =>
    rw [hv]
    exact ⟨.inr ⟨rfl, rfl, rfl⟩, h.generator⟩
  | stopConversion _ hv _ _ =>
    rw [hv]
    exact ⟨.inl ⟨rfl, rfl, rfl⟩, h.generator⟩
  | startGenerator c _ _ hv _ _ =>
    rw [hv]
    exact ⟨h.conversion, .inr rfl⟩
  | stopGenerator _ _ hv _ =>
    rw [hv]
    exact ⟨h.conversion, .inl rfl⟩

theorem coupled_run {b : Board} {tr : List (Device × CommAct)} {d : Device} (h : CommRun b tr d) :
    d.converters.Coupled :=
  h.invariant (I := fun d => d.converters.Coupled) (coupled_powerUp b)
    fun _ _ _ hd hs => (converterEffect hs).coupled hd

/-- The reference count is right: it is the number of active converters, the
timer runs exactly while there is one, and no stop has found the count at 0. -/
structure ClockOk (d : Device) : Prop where
  counts : Counts d.sclock.mRuncount d.sclock.timer d.converters.active
  noWrap : ∀ n, Call.clockStop n ∈ d.trace → n ≠ 0

/-- A `stopGenerator` finds the generator running. -/
def StopsRunning (d : Device) (a : CommAct) : Prop :=
  a = .comm → nextCommand d = some 'w'.toUInt8 → (d.dac 1).state = .ACTIVE

theorem clockOk_powerUp (b : Board) : ClockOk (powerUp b) :=
  ⟨⟨rfl, by simp [powerUp, Device.converters, ConverterView.active, busy]⟩, by simp [powerUp]⟩

theorem mem_clockStop_of_leaves {d d' : Device} (h : Leaves Device.converters d d') {n : UInt32}
    (hn : Call.clockStop n ∈ d'.trace) : Call.clockStop n ∈ d.trace := by
  obtain ⟨-, t, ht, hc⟩ := h
  rw [ht, List.mem_append] at hn
  rcases hn with hn | hn
  · exact hn
  · exact absurd (hc _ hn) (by simp [Call.isConverter])

theorem Counts.ne_zero {n : UInt32} {t : Option UInt32} {k : ℕ} (h : Counts n t (k + 1)) : n ≠ 0 := by
  rintro rfl
  have := h.count
  simp at this

section Counting

variable {d d' : Device} {v : ConverterView}

theorem runcount_of_view (h : d.converters = v) : d.sclock.mRuncount = v.mRuncount :=
  congrArg ConverterView.mRuncount h

theorem timer_of_view (h : d.converters = v) : d.sclock.timer = v.timer :=
  congrArg ConverterView.timer h

theorem busy_le (s : DriverState) : busy s ≤ 1 := by
  unfold busy
  split_ifs <;> omega

theorem active_of_idle (hc : d.converters.Coupled) (h : d.runStatus = .Idle) :
    d.converters.active = busy (d.dac 1).state := by
  rcases hc.conversion with ⟨-, ha, h0⟩ | ⟨hr, -, -⟩
  · rw [ConverterView.active, ha, h0, busy_ready]
    simp [Device.converters]
  · exact absurd (h.symm.trans hr) (by decide)

theorem active_of_running (hc : d.converters.Coupled) (h : d.runStatus = .Running) :
    d.converters.active = busy (d.dac 1).state + 1 + 1 := by
  rcases hc.conversion with ⟨hr, -, -⟩ | ⟨-, ha, h0⟩
  · exact absurd (h.symm.trans hr) (by decide)
  · rw [ConverterView.active, ha, h0, busy_active]
    simp only [Device.converters]
    omega

theorem active_running (r : RunStatus) (n : UInt32) (t : Option UInt32) (depth depth' : ℕ)
    (dac : Fin 2 → Driver) :
    (ConverterView.mk r n t ⟨.ACTIVE, depth⟩ (Function.update dac 0 ⟨.ACTIVE, depth'⟩)).active =
      busy (dac 1).state + 1 + 1 := by
  simp [ConverterView.active]
  omega

theorem active_idle (r : RunStatus) (n : UInt32) (t : Option UInt32) (depth depth' : ℕ)
    (dac : Fin 2 → Driver) :
    (ConverterView.mk r n t ⟨.READY, depth⟩ (Function.update dac 0 ⟨.READY, depth'⟩)).active =
      busy (dac 1).state := by
  simp [ConverterView.active]

theorem active_generator (hgen : (d.dac 1).state = .READY) (n : UInt32) (t : Option UInt32)
    (depth : ℕ) :
    (ConverterView.mk d.runStatus n t d.adc.driver
      (Function.update d.dac 1 ⟨.ACTIVE, depth⟩)).active = d.converters.active + 1 := by
  simp [ConverterView.active, Device.converters, hgen]

theorem active_generator_stopped (hgen : (d.dac 1).state = .ACTIVE) (n : UInt32)
    (t : Option UInt32) (depth : ℕ) :
    (ConverterView.mk d.runStatus n t d.adc.driver
      (Function.update d.dac 1 ⟨.READY, depth⟩)).active + 1 = d.converters.active := by
  simp [ConverterView.active, Device.converters, hgen]

end Counting

theorem ConverterEffect.clockOk {d d' : Device} {a : CommAct} (he : ConverterEffect d a d')
    (hc : d.converters.Coupled) (hstop : StopsRunning d a) (h : ClockOk d) : ClockOk d' := by
  have hcount := h.counts
  cases he with
  | leaves hl _ =>
    have hv : d'.converters = d.converters := hl.1
    refine ⟨?_, fun n hn => h.noWrap n (mem_clockStop_of_leaves hl hn)⟩
    rw [hv, show d'.sclock.mRuncount = d.sclock.mRuncount from congrArg ConverterView.mRuncount hv,
      show d'.sclock.timer = d.sclock.timer from congrArg ConverterView.timer hv]
    exact hcount
  | startConversion c₁ c₂ hidle hc₁ hc₂ hv ht _ =>
    refine ⟨?_, fun n hn => h.noWrap n (ht n hn)⟩
    rw [active_of_idle hc hidle] at hcount
    have hle := busy_le (d.dac 1).state
    have h₂ := (hcount.start (by omega) hc₁).start (by omega) hc₂
    rw [runcount_of_view hv, timer_of_view hv, hv, active_running]
    exact h₂
  | stopConversion hrun hv ht _ =>
    rw [active_of_running hc hrun] at hcount
    refine ⟨?_, fun n hn => ?_⟩
    · rw [runcount_of_view hv, timer_of_view hv, hv, active_idle]
      exact hcount.stop.stop
    · rcases ht n hn with hn | rfl | rfl
      · exact h.noWrap n hn
      · exact hcount.ne_zero
      · exact hcount.stop.ne_zero
  | startGenerator c hready hcl hv ht _ =>
    refine ⟨?_, fun n hn => h.noWrap n (ht n hn)⟩
    have hgen : (d.dac 1).state = .READY := by
      rcases hc.generator with hg | hg
      · exact hg
      · rw [show (d.dac 1).state = .ACTIVE from hg] at hready
        exact absurd hready (by decide)
    have h₁ := hcount.start (ConverterView.active_le _) hcl
    rw [runcount_of_view hv, timer_of_view hv, hv, active_generator hgen]
    exact h₁
  | stopGenerator ha hw hv ht =>
    have hgen := hstop ha hw
    rw [← active_generator_stopped hgen (clockStop d.sclock).mRuncount (clockStop d.sclock).timer
      (d.dac 1).depth] at hcount
    refine ⟨?_, fun n hn => ?_⟩
    · rw [runcount_of_view hv, timer_of_view hv, hv]
      exact hcount.stop
    · rcases ht n hn with hn | rfl
      · exact h.noWrap n hn
      · exact hcount.ne_zero

/-- A stop of an idle generator is never counted right. -/
theorem ConverterEffect.not_clockOk {d d' : Device} {a : CommAct} (he : ConverterEffect d a d')
    (hc : d.converters.Coupled) (h : ClockOk d) (hstop : ¬ StopsRunning d a) : ¬ ClockOk d' := by
  simp only [StopsRunning, not_forall] at hstop
  obtain ⟨ha, hw, hgen⟩ := hstop
  have hready : (d.dac 1).state = .READY := hc.generator.resolve_right hgen
  cases he with
  | leaves _ hw' => exact absurd hw (hw' ha)
  | startConversion _ _ _ _ _ _ _ hw' => exact absurd hw (hw' ha)
  | stopConversion _ _ _ hw' => exact absurd hw (hw' ha)
  | startGenerator _ _ _ _ _ hw' => exact absurd hw (hw' ha)
  | stopGenerator _ _ hv _ =>
    intro h'
    have hcount := h'.counts
    have hsame : d'.converters.active = d.converters.active := by
      rw [hv]
      simp [ConverterView.active, Device.converters, hready]
    rw [hsame, runcount_of_view hv, timer_of_view hv] at hcount
    exact h.counts.not_stop hcount

/-- In a run that does not halt, the reference count is right in every state
between commands exactly if every `stopGenerator` finds the generator running. -/
theorem clock_count_iff {b : Board} {tr : List (Device × CommAct)} {d : Device}
    (h : CommRun b tr d) :
    ((∀ p ∈ tr, ClockOk p.1) ∧ ClockOk d) ↔ ∀ p ∈ tr, StopsRunning p.1 p.2 := by
  refine h.forall_states_iff (P := ClockOk) (R := StopsRunning) (clockOk_powerUp b) ?_
  intro tr s a s' hr hs hok
  have hc := coupled_run hr
  have he := converterEffect hs
  constructor
  · intro hok'
    by_contra hstop
    exact he.not_clockOk hc hok hstop hok'
  · intro hstop
    exact he.clockOk hc hstop hok

/-- Starting and stopping the generator once. -/
theorem clock_count_iff_generator :
    ∃ tr d, CommRun default tr d ∧
      tr.map Prod.snd = [.host ['W'.toUInt8, 'w'.toUInt8], .comm, .comm] ∧
      (((∀ p ∈ tr, ClockOk p.1) ∧ ClockOk d) ↔ ∀ p ∈ tr, StopsRunning p.1 p.2) := by
  obtain ⟨tr, hr, hacts⟩ := run_of_execActs (powerUp default)
    [.host ['W'.toUInt8, 'w'.toUInt8], .comm, .comm] rfl
  exact ⟨tr, _, hr, hacts, clock_count_iff hr⟩

/-- 'w' as the first command: the count wraps to 2^32 - 1 with no converter active. -/
theorem clock_count_wraps :
    ∃ tr d, CommRun default tr d ∧ tr.map Prod.snd = [.host ['w'.toUInt8], .comm] ∧
      d.sclock.mRuncount = 0xFFFFFFFF ∧ d.converters.active = 0 ∧ ¬ ClockOk d := by
  obtain ⟨tr, hr, hacts⟩ := run_of_execActs (powerUp default)
    [.host ['w'.toUInt8], .comm] rfl
  refine ⟨tr, _, hr, hacts, by decide, by decide, fun h => ?_⟩
  exact absurd h.counts.count (by decide)

end Stmdsp
