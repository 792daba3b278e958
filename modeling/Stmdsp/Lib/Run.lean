import Mathlib.Tactic

/-! Runs of a labelled transition relation, kept together with the states their
steps were taken in, and the induction rules for statements about every state of
a run. -/

namespace Stmdsp

variable {σ α : Type}

/-- `Run step s₀ tr s`: the steps `tr`, each with the state before it, lead from
`s₀` to `s`. -/
inductive Run (step : σ → α → σ → Prop) (s₀ : σ) : List (σ × α) → σ → Prop where
  | nil : Run step s₀ [] s₀
  | snoc {tr : List (σ × α)} {s s' : σ} {a : α} :
      Run step s₀ tr s → step s a s' → Run step s₀ (tr ++ [(s, a)]) s'

namespace Run

variable {step : σ → α → σ → Prop} {s₀ s : σ} {tr : List (σ × α)}

/-- An invariant of the steps holds at the end of every run. -/
theorem invariant {I : σ → Prop} (h : Run step s₀ tr s) (h₀ : I s₀)
    (hstep : ∀ s a s', I s → step s a s' → I s') : I s := by
  induction h with
  | nil => exact h₀
  | snoc _ hs ih => exact hstep _ _ _ ih hs

/-- And in every state the run has left. -/
theorem invariant_mem {I : σ → Prop} (h : Run step s₀ tr s) (h₀ : I s₀)
    (hstep : ∀ s a s', I s → step s a s' → I s') : ∀ p ∈ tr, I p.1 := by
  induction h with
  | nil => simp
  | snoc hr _ ih =>
    rw [List.forall_mem_append, List.forall_mem_singleton]
    exact ⟨ih, hr.invariant h₀ hstep⟩

/-- What every step satisfies. -/
theorem forall_steps {R : σ → α → Prop} (h : Run step s₀ tr s)
    (hstep : ∀ s a s', step s a s' → R s a) : ∀ p ∈ tr, R p.1 p.2 := by
  induction h with
  | nil => simp
  | snoc _ hs ih =>
    rw [List.forall_mem_append, List.forall_mem_singleton]
    exact ⟨ih, hstep _ _ _ hs⟩

/-- What a step keeps exactly under a condition, a run keeps exactly if all of its steps
meet the condition. -/
theorem forall_iff {P : σ → Prop} {R : σ → α → Prop} (h : Run step s₀ tr s) (h₀ : P s₀)
    (hstep : ∀ tr s a s', Run step s₀ tr s → step s a s' → (P s' ↔ P s ∧ R s a)) :
    P s ↔ ∀ p ∈ tr, R p.1 p.2 := by
  induction h with
  | nil => simpa
  | snoc hr hs ih =>
    rw [hstep _ _ _ _ hr hs, ih, List.forall_mem_append, List.forall_mem_singleton]

/-- A property that a step keeps exactly under a condition holds in all states of a run
exactly if all its steps meet the condition. -/
theorem forall_states_iff {P : σ → Prop} {R : σ → α → Prop} (h : Run step s₀ tr s) (h₀ : P s₀)
    (hstep : ∀ tr s a s', Run step s₀ tr s → step s a s' → P s → (P s' ↔ R s a)) :
    ((∀ p ∈ tr, P p.1) ∧ P s) ↔ ∀ p ∈ tr, R p.1 p.2 := by
  induction h with
  | nil => simpa
  | snoc hr hs ih =>
    rw [List.forall_mem_append, List.forall_mem_append, List.forall_mem_singleton,
      List.forall_mem_singleton, ← ih]
    exact and_congr_right fun hpast => hstep _ _ _ _ hr hs hpast.2

/-- A run all of whose steps meet a condition, as a run of the steps that do. -/
theorem guarded {R : σ → α → Prop} (h : Run step s₀ tr s) (hR : ∀ p ∈ tr, R p.1 p.2) :
    Run (fun s a s' => step s a s' ∧ R s a) s₀ tr s := by
  induction h with
  | nil => exact .nil
  | snoc _ hs ih =>
    rw [List.forall_mem_append, List.forall_mem_singleton] at hR
    exact (ih hR.1).snoc ⟨hs, hR.2⟩

theorem mono {step' : σ → α → σ → Prop} (h : Run step s₀ tr s)
    (hstep : ∀ s a s', step s a s' → step' s a s') : Run step' s₀ tr s := by
  induction h with
  | nil => exact .nil
  | snoc _ hs ih => exact ih.snoc (hstep _ _ _ hs)

theorem single {s' : σ} {a : α} (h : step s a s') : Run step s [(s, a)] s' := Run.nil.snoc h

theorem append {s' : σ} {tr' : List (σ × α)} (h : Run step s₀ tr s) (h' : Run step s tr' s') :
    Run step s₀ (tr ++ tr') s' := by
  induction h' with
  | nil => simpa using h
  | snoc _ hs ih =>
    rw [← List.append_assoc]
    exact ih.snoc hs

theorem eq_of_nil (h : Run step s₀ [] s) : s = s₀ := by
  generalize hl : [] = l at h
  cases h with
  | nil => rfl
  | snoc => exact absurd hl.symm (List.append_ne_nil_of_right_ne_nil _ (List.cons_ne_nil _ _))

/-- A step of a run, with the runs up to it and from it. -/
theorem split {tr' : List (σ × α)} {p : σ × α} (h : Run step s₀ (tr ++ p :: tr') s) :
    Run step s₀ tr p.1 ∧ ∃ s', step p.1 p.2 s' ∧ Run step s' tr' s := by
  generalize hl : tr ++ p :: tr' = l at h
  induction h generalizing tr' with
  | nil => simp at hl
  | snoc hr hs ih =>
    rcases List.eq_nil_or_concat' tr' with rfl | ⟨l', x, rfl⟩
    · obtain ⟨rfl, hp⟩ := List.append_inj' hl rfl
      obtain rfl := List.singleton_injective hp
      exact ⟨hr, _, hs, .nil⟩
    · rw [← List.cons_append, ← List.append_assoc] at hl
      obtain ⟨hinit, hx⟩ := List.append_inj' hl rfl
      obtain rfl := List.singleton_injective hx
      obtain ⟨hr₁, s₁, hs₁, hr'⟩ := ih hinit
      exact ⟨hr₁, s₁, hs₁, hr'.snoc hs⟩

/-- If every step of one system is some steps of another, its runs are runs of the other. -/
theorem simulate {τ β : Type} {step' : τ → β → τ → Prop} {I : σ → Prop} (h : Run step s₀ tr s)
    (abs : σ → τ) (f : α → List β) (h₀ : I s₀)
    (hstep : ∀ tr' s a s', Run step' (abs s₀) tr' (abs s) → I s → step s a s' →
      I s' ∧ ∃ tr'', Run step' (abs s) tr'' (abs s') ∧ tr''.map Prod.snd = f a) :
    I s ∧ ∃ tr', Run step' (abs s₀) tr' (abs s) ∧ tr'.map Prod.snd = tr.flatMap fun p => f p.2 := by
  induction h with
  | nil => exact ⟨h₀, [], .nil, rfl⟩
  | snoc _ hs ih =>
    obtain ⟨hi, tr', hr, hacts⟩ := ih
    obtain ⟨hi', tr'', hr', hacts'⟩ := hstep _ _ _ _ hr hi hs
    exact ⟨hi', tr' ++ tr'', hr.append hr', by simp [hacts, hacts']⟩

/-- Actions that a function takes from state to state make a run. -/
theorem of_foldlM {f : σ → α → Option σ} (hf : ∀ s a s', f s a = some s' → step s a s')
    {acts : List α} (h : acts.foldlM f s₀ = some s) :
    ∃ tr, Run step s₀ tr s ∧ tr.map Prod.snd = acts := by
  induction acts generalizing s₀ with
  | nil =>
    obtain rfl := Option.some.inj h
    exact ⟨[], .nil, rfl⟩
  | cons a acts ih =>
    rw [List.foldlM_cons, Option.bind_eq_bind, Option.bind_eq_some_iff] at h
    obtain ⟨s', hs', hacts⟩ := h
    obtain ⟨tr, hr, hmap⟩ := ih hacts
    exact ⟨_, (single (hf _ _ _ hs')).append hr, by simp [hmap]⟩

theorem exists_of_foldlM {f : σ → α → Option σ} (hf : ∀ s a s', f s a = some s' → step s a s')
    (acts : List α) (p : σ → Bool) (h : (acts.foldlM f s₀).any p = true) :
    ∃ tr s, Run step s₀ tr s ∧ tr.map Prod.snd = acts ∧ p s = true := by
  obtain ⟨s, hs, hp⟩ := (Option.any_eq_true _ _).mp h
  obtain ⟨tr, hr, hacts⟩ := of_foldlM hf hs
  exact ⟨tr, s, hr, hacts, hp⟩

end Run

end Stmdsp
