import Stmdsp.Model.HostRun
import Stmdsp.Proofs.Clock
import Stmdsp.Proofs.Handlers
import Stmdsp.Proofs.HandlerSteps

/-! The sampling rate in its three places: the divider 'r' stores, the interval the timer
was started with, and the preset of the ADC's clock. -/

namespace Stmdsp

open Proc

/-! ### What a step does to the rate -/

/-- The byte an 'r' in the next pass reads, if there is one. -/
def rateParam (d : Device) : CommAct → Option UInt8
  | .comm => if nextCommand d = some 'r'.toUInt8 then d.input.tail.head? else none
  | _ => none

/-- What one step of a host run does to the timer, the divider and the preset. -/
inductive RateEffect (d : Device) (a : CommAct) (d' : Device) : Prop where
  | keeps (hparam : ∀ x, rateParam d a = some x → x = 0xFF)
      (timer : d'.sclock.timer = d.sclock.timer ∨ d'.sclock.timer = none ∨
        d'.sclock.timer = some d.sclock.mDiv)
      (mDiv : d'.sclock.mDiv = d.sclock.mDiv) (preset : d'.adc.preset = d.adc.preset)
  | sets (x : UInt8) (hparam : rateParam d a = some x) (hset : x ≠ 0xFF)
      (timer : d'.sclock.timer = d.sclock.timer)
      (mDiv : d'.sclock.mDiv = SClock.rateDiv d x.toNat)
      (preset : d'.adc.preset = ADC.ratePresets.getD x.toNat (d.pastPresets x.toNat))

theorem clockStart_timer {c c' : SClockState} (h : clockStart c = some c') :
    c'.mDiv = c.mDiv ∧ (c'.timer = c.timer ∨ c'.timer = some c.mDiv) := by
  unfold clockStart at h
  split at h
  · split at h
    · cases h
      exact ⟨rfl, .inr rfl⟩
    · simp at h
  · cases h
    exact ⟨rfl, .inl rfl⟩

theorem clockStop_timer (c : SClockState) :
    (clockStop c).timer = c.timer ∨ (clockStop c).timer = none := by
  unfold clockStop
  dsimp only
  split
  · exact .inr rfl
  · exact .inl rfl

/-- Starting converters latches the divider at most, stopping them stops the timer at most. -/
theorem ConverterEffect.timer {d d' : Device} {a : CommAct} (h : ConverterEffect d a d') :
    d'.sclock.timer = d.sclock.timer ∨ d'.sclock.timer = none ∨
      d'.sclock.timer = some d.sclock.mDiv := by
  cases h with
  | leaves hl _ => exact .inl (timer_of_view hl.1)
  | startConversion c₁ c₂ _ hc₁ hc₂ hv _ _ =>
    rw [timer_of_view hv]
    obtain ⟨hdiv, ht₁⟩ := clockStart_timer hc₁
    obtain ⟨-, ht₂⟩ := clockStart_timer hc₂
    rw [hdiv] at ht₂
    rcases ht₂ with ht₂ | ht₂
    · exact ht₁.imp ht₂.trans fun h => .inr (ht₂.trans h)
    · exact .inr (.inr ht₂)
  | stopConversion _ hv _ _ =>
    rw [timer_of_view hv]
    rcases clockStop_timer (clockStop d.sclock) with h | h
    · exact (clockStop_timer d.sclock).imp h.trans fun h' => .inl (h.trans h')
    · exact .inr (.inl h)
  | startGenerator c _ hc hv _ _ =>
    rw [timer_of_view hv]
    exact (clockStart_timer hc).2.imp_right .inr
  | stopGenerator _ _ hv _ =>
    rw [timer_of_view hv]
    exact (clockStop_timer d.sclock).imp_right .inl

def rateState (d : Device) : UInt32 × Preset := (d.sclock.mDiv, d.adc.preset)

theorem rateState_step {c : UInt8} (hr : c ≠ 'r'.toUInt8) (d d' : Device) (h : HandlerStep c d d') :
    rateState d' = rateState d := by
  cases h with
  | divider hc => exact absurd hc hr
  | preset hc => exact absurd hc hr
  | _ => rfl

/-- An 'r' that finds no byte, or 0xFF, changes nothing. -/
theorem sampleRate_reads {d d' : Device} (hx : ∀ x, d.input.head? = some x → x = 0xFF)
    (h : sampleRate.run d = .ok () d') :
    d'.sclock = d.sclock ∧ d'.adc = d.adc := by
  rw [sampleRate_eq, run_read_bind, if_pos Nat.one_pos] at h
  cases hin : d.input with
  | nil =>
    simp only [hin, applyRate, List.take_nil, bind_eq, run_assert_bind, List.length_nil] at h
    cases h
    exact ⟨rfl, rfl⟩
  | cons x rest =>
    obtain rfl := hx x (by rw [hin]; rfl)
    simp only [hin, applyRate, bind_eq, run_assert_bind] at h
    cases h
    exact ⟨rfl, rfl⟩

theorem sampleRate_sets {d d' : Device} {x : UInt8} {rest : List UInt8} (hin : d.input = x :: rest)
    (hx : x ≠ 0xFF) (h : sampleRate.run d = .ok () d') :
    d'.sclock = { d.sclock with mDiv := SClock.rateDiv d x.toNat } ∧
      d'.adc.preset = ADC.ratePresets.getD x.toNat (d.pastPresets x.toNat) := by
  rw [sampleRate_eq, run_read_bind, if_pos Nat.one_pos] at h
  simp only [hin, applyRate, bind_eq, run_assert_bind, List.take_succ_cons, List.take_zero,
    List.length_singleton, beq_self_eq_true, if_true, List.getD_cons_zero, if_neg hx,
    SClock.setRate, ADC.setRate, run_modify_bind, run_modify, Outcome.ok.injEq, true_and] at h
  subst h
  exact ⟨rfl, rfl⟩

theorem rateParam_r {d : Device} {rest : List UInt8} (hin : d.input = 'r'.toUInt8 :: rest) :
    rateParam d .comm = rest.head? := by
  rw [rateParam, nextCommand, hin, List.head?_cons, if_pos rfl, List.tail_cons]

theorem rateParam_none {d : Device} (hr : nextCommand d ≠ some 'r'.toUInt8) :
    rateParam d .comm = none :=
  if_neg hr

theorem rateEffect {d d' : Device} {a : CommAct} (h : HostStep d a d') : RateEffect d a d' := by
  have htimer := (converterEffect h.commStep).timer
  cases a with
  | host bytes =>
    obtain rfl := h
    exact .keeps (by simp [rateParam]) htimer rfl rfl
  | env => exact .keeps (by simp [rateParam]) htimer (congrArg _ h.sclock) h.preset
  | comm =>
    change CommunicationManager.threadComm.run d = .ok () d' at h
    by_cases hr : nextCommand d = some 'r'.toUInt8
    · obtain ⟨rest, hin⟩ := input_of_nextCommand hr
      rw [threadComm_run, hin] at h
      have hparam := rateParam_r hin
      by_cases hx : ∀ x, rest.head? = some x → x = 0xFF
      · obtain ⟨hs, ha⟩ := sampleRate_reads (d := received d _ rest) hx h
        refine .keeps (fun x hx' => hx x (hparam ▸ hx')) htimer ?_ ?_
        · rw [hs]; rfl
        · rw [ha]; rfl
      · obtain ⟨x, hhead, hne⟩ : ∃ x, rest.head? = some x ∧ x ≠ 0xFF := by simpa using hx
        obtain ⟨rest', rfl⟩ : ∃ rest', rest = x :: rest' := ⟨_, (List.cons_head?_tail hhead).symm⟩
        obtain ⟨hs, hp⟩ := sampleRate_sets (d := received d _ (x :: rest')) rfl hne h
        exact .sets x hparam hne (by rw [hs]; rfl) (by rw [hs]; rfl) hp
    · have hview : rateState d' = rateState d := by
        refine view_of_pass (fun c hnext => rateState_step ?_) h
        rintro rfl
        exact hr hnext
      refine .keeps (by simp [rateParam_none hr]) htimer ?_ ?_
      · exact congrArg Prod.fst hview
      · exact congrArg Prod.snd hview

/-! ### The claimed agreement -/

/-- While the timer runs, its interval is the divider, and the index 'r' reports for it is
that of the interval and of the preset. -/
def RateOk (d : Device) : Prop :=
  ∀ t, d.sclock.timer = some t → t = d.sclock.mDiv ∧ ∃ i < 6, SClock.getRate d = i.toUInt32 ∧
    rateDivs[i]? = some t ∧ ADC.ratePresets[i]? = some d.adc.preset

/-- Every rate the host sets is an index of the table. -/
def KnownRates (tr : List (Device × CommAct)) : Prop :=
  ∀ p ∈ tr, ∀ x, rateParam p.1 p.2 = some x → x = 0xFF ∨ x.toNat < 6

/-- A rate is set while the timer is stopped, or it is the one already set. -/
def RateKept (d : Device) (a : CommAct) : Prop :=
  ∀ x, rateParam d a = some x → x ≠ 0xFF →
    d.sclock.timer = none ∨ rateDivs[x.toNat]? = some d.sclock.mDiv

/-- Divider and preset have one index. -/
def RateSet (d : Device) : Prop :=
  ∃ i < 6, rateDivs[i]? = some d.sclock.mDiv ∧ ADC.ratePresets[i]? = some d.adc.preset

/-- No two indices share a divider. -/
theorem getRate_of_index {d : Device} {i : ℕ} (hi : i < 6) (h : rateDivs[i]? = some d.sclock.mDiv) :
    SClock.getRate d = i.toUInt32 := by
  rw [SClock.getRate]
  interval_cases i <;> (simp only [rateDivs, List.getElem?_cons_zero, List.getElem?_cons_succ,
    Option.some.injEq] at h; rw [← h]; rfl)

theorem rateOk_iff {d : Device} (h : RateSet d) :
    RateOk d ↔ ∀ t, d.sclock.timer = some t → t = d.sclock.mDiv := by
  obtain ⟨i, hi, hdiv, hpre⟩ := h
  refine forall₂_congr fun t _ => ⟨And.left, fun ht => ⟨ht, i, hi, getRate_of_index hi hdiv, ?_, hpre⟩⟩
  rw [ht, hdiv]

theorem rateDiv_of_lt (d : Device) {i : ℕ} (hi : i < 6) :
    rateDivs[i]? = some (SClock.rateDiv d i) := by
  have hlen : i < rateDivs.length := hi
  rw [SClock.rateDiv, List.getD_eq_getElem?_getD, List.getElem?_eq_getElem hlen, Option.getD_some]

theorem ratePreset_of_lt (p : Preset) {i : ℕ} (hi : i < 6) :
    ADC.ratePresets[i]? = some (ADC.ratePresets.getD i p) := by
  have hlen : i < ADC.ratePresets.length := hi
  rw [List.getD_eq_getElem?_getD, List.getElem?_eq_getElem hlen, Option.getD_some]

section Runs

variable {b : Board} {tr : List (Device × CommAct)} {d d' : Device} {a : CommAct}

theorem RateEffect.rateSet (he : RateEffect d a d')
    (hknown : ∀ x, rateParam d a = some x → x = 0xFF ∨ x.toNat < 6) (h : RateSet d) :
    RateSet d' := by
  cases he with
  | keeps _ _ mDiv preset =>
    rw [RateSet, mDiv, preset]
    exact h
  | sets x hparam hset _ mDiv preset =>
    have hi : x.toNat < 6 := (hknown x hparam).resolve_left hset
    rw [RateSet, mDiv, preset]
    exact ⟨x.toNat, hi, rateDiv_of_lt d hi, ratePreset_of_lt _ hi⟩

theorem rateSet_powerUp (b : Board) : RateSet (powerUp b) := ⟨R32K, by decide, rfl, rfl⟩

theorem knownRates_snoc : KnownRates (tr ++ [(d, a)]) ↔
    KnownRates tr ∧ ∀ x, rateParam d a = some x → x = 0xFF ∨ x.toNat < 6 := by
  simp only [KnownRates, List.mem_append, List.mem_singleton, or_imp, forall_and, forall_eq]

/-- A step that sets no unknown rate. -/
def KnownStep (d : Device) (a : CommAct) (d' : Device) : Prop :=
  HostStep d a d' ∧ ∀ x, rateParam d a = some x → x = 0xFF ∨ x.toNat < 6

theorem rateSet_run (h : Run KnownStep (powerUp b) tr d) : RateSet d :=
  h.invariant (I := RateSet) (rateSet_powerUp b) fun _ _ _ hset hs =>
    (rateEffect hs.1).rateSet hs.2 hset

theorem RateEffect.timerOk_iff (he : RateEffect d a d')
    (hknown : ∀ x, rateParam d a = some x → x = 0xFF ∨ x.toNat < 6)
    (h : ∀ t, d.sclock.timer = some t → t = d.sclock.mDiv) :
    (∀ t, d'.sclock.timer = some t → t = d'.sclock.mDiv) ↔ RateKept d a := by
  cases he with
  | keeps hparam timer mDiv _ =>
    refine iff_of_true (fun t ht => ?_) fun x hx hne => absurd (hparam x hx) hne
    rw [mDiv]
    rcases timer with hsame | hnone | hsome
    · exact h t (hsame ▸ ht)
    · rw [hnone] at ht
      simp at ht
    · rw [hsome, Option.some.injEq] at ht
      exact ht.symm
  | sets x hparam hset timer mDiv _ =>
    have hi : x.toNat < 6 := (hknown x hparam).resolve_left hset
    have hkept : RateKept d a ↔
        (d.sclock.timer = none ∨ rateDivs[x.toNat]? = some d.sclock.mDiv) := by
      simp only [RateKept, hparam, Option.some.injEq, forall_eq', hset, ne_eq, not_false_eq_true,
        forall_true_left]
    rw [hkept, timer, mDiv, rateDiv_of_lt d hi, Option.some.injEq]
    cases ht : d.sclock.timer with
    | none => simp
    | some t =>
      rw [← h t ht]
      simp [eq_comm]

/-- In a run that sets no unknown rate, the reported rate is the running one in every
state exactly if every rate is set while the timer is stopped, or is set already. -/
theorem rate_reported_iff (h : HostRun b tr d) (hp : KnownRates tr) :
    ((∀ p ∈ tr, RateOk p.1) ∧ RateOk d) ↔ ∀ p ∈ tr, RateKept p.1 p.2 := by
  have hr : Run KnownStep (powerUp b) tr d := h.guarded hp
  have h₀ : RateOk (powerUp b) :=
    (rateOk_iff (rateSet_powerUp b)).mpr fun _ ht => by simp [powerUp] at ht
  refine hr.forall_states_iff (P := RateOk) (R := RateKept) h₀ ?_
  rintro tr s a s' hr ⟨hs, hknown⟩ hok
  have hset := rateSet_run hr
  have he := rateEffect hs
  rw [rateOk_iff (he.rateSet hknown hset)]
  exact he.timerOk_iff hknown ((rateOk_iff hset).mp hok)

end Runs

theorem knownRates_nil : KnownRates [] := fun _ h => absurd h List.not_mem_nil

/-- The slowest rate, set before the generator starts. -/
theorem rate_reported_iff_before_start :
    ∃ tr d, HostRun default tr d ∧
      tr.map Prod.snd = [.host ['r'.toUInt8, 0, 'W'.toUInt8], .comm, .comm] ∧
      d.sclock.timer = some 4500 ∧
      (((∀ p ∈ tr, RateOk p.1) ∧ RateOk d) ↔ ∀ p ∈ tr, RateKept p.1 p.2) := by
  have hhost : HostStep (powerUp default) (.host ['r'.toUInt8, 0, 'W'.toUInt8]) _ := rfl
  have hrate := (Run.nil.snoc hhost).snoc (hostStep_pass rfl)
  have hstart := hrate.snoc (hostStep_pass rfl)
  refine ⟨_, _, hstart, rfl, rfl, rate_reported_iff hstart ?_⟩
  refine knownRates_snoc.mpr ⟨knownRates_snoc.mpr ⟨knownRates_snoc.mpr ⟨knownRates_nil, ?_⟩, ?_⟩, ?_⟩
  · rintro x ⟨⟩
  · rintro x ⟨⟩
    decide
  · rintro x ⟨⟩

/-- Set after it has started: the timer goes on at 32k, and 'r' reports 8k. -/
theorem rate_reported_wrong :
    ∃ tr d, HostRun default tr d ∧
      tr.map Prod.snd = [.host ['W'.toUInt8, 'r'.toUInt8, 0], .comm, .comm] ∧ KnownRates tr ∧
      d.sclock.timer = some 1125 ∧ d.sclock.mDiv = 4500 ∧ SClock.getRate d = 0 ∧
      d.adc.preset = (16, 1, 2) ∧ ¬ RateOk d := by
  have hhost : HostStep (powerUp default) (.host ['W'.toUInt8, 'r'.toUInt8, 0]) _ := rfl
  have hstart := (Run.nil.snoc hhost).snoc (hostStep_pass rfl)
  have hrate := hstart.snoc (hostStep_pass rfl)
  refine ⟨_, _, hrate, rfl, ?_, rfl, rfl, rfl, rfl,
    fun h => absurd (h 1125 rfl).1 (by decide)⟩
  refine knownRates_snoc.mpr ⟨knownRates_snoc.mpr ⟨knownRates_snoc.mpr ⟨knownRates_nil, ?_⟩, ?_⟩, ?_⟩
  · rintro x ⟨⟩
  · rintro x ⟨⟩
  · rintro x ⟨⟩
    decide

end Stmdsp
