import Mathlib.Tactic

/-! Sequential programs over a shared state, cut at the points where other
activities may run. One text of a program has two readings: `run` executes it
without interruption, and a scheduler that holds the rest of the program may put
foreign steps between any two of its atomic steps. -/

namespace Stmdsp

/-- A program over the shared state `σ` that returns an `α`. A step waits until
`ready`, updates the state atomically, and continues as the state it found says. -/
inductive Proc (σ α : Type) where
  | done (a : α)
  | halt
  | step (ready : σ → Bool) (upd : σ → σ) (next : σ → Proc σ α)

/-- How an uninterrupted run ends, always with the state it leaves. -/
inductive Outcome (σ α : Type) where
  | ok (a : α) (s : σ)
  | halted (s : σ)
  | blocked (s : σ)

namespace Outcome

variable {σ α : Type}

def state : Outcome σ α → σ
  | .ok _ s => s
  | .halted s => s
  | .blocked s => s

def isOk : Outcome σ α → Bool
  | .ok _ _ => true
  | _ => false

@[simp] theorem state_ok (a : α) (s : σ) : (ok a s).state = s := rfl
@[simp] theorem state_halted (s : σ) : (halted s : Outcome σ α).state = s := rfl
@[simp] theorem state_blocked (s : σ) : (blocked s : Outcome σ α).state = s := rfl

theorem eq_of_isOk {o : Outcome σ Unit} (h : o.isOk = true) : o = .ok () o.state := by
  cases o with
  | ok a s => rfl
  | halted s => simp [isOk] at h
  | blocked s => simp [isOk] at h

end Outcome

namespace Proc

variable {σ α β : Type}

def bind : Proc σ α → (α → Proc σ β) → Proc σ β
  | .done a, f => f a
  | .halt, _ => .halt
  | .step g u k, f => .step g u fun s => (k s).bind f

instance : Monad (Proc σ) where
  pure := done
  bind := bind

/-- One atomic step that returns a value. -/
def act (f : σ → α × σ) : Proc σ α :=
  .step (fun _ => true) (fun s => (f s).2) fun s => .done (f s).1

def gets (f : σ → α) : Proc σ α := act fun s => (f s, s)

def modify (u : σ → σ) : Proc σ Unit := act fun s => ((), u s)

/-- An atomic step behind an assertion that halts when it fails. The entry is
recorded by `log` before the assertion is evaluated. -/
def guarded (log : σ → σ) (c : σ → Bool) (f : σ → α × σ) : Proc σ α :=
  .step (fun _ => true) (fun s => if c s then (f (log s)).2 else log s)
    fun s => if c s then .done (f (log s)).1 else .halt

/-- An atomic step that waits for its condition. -/
def await (c : σ → Bool) (f : σ → α × σ) : Proc σ α :=
  .step c (fun s => (f s).2) fun s => .done (f s).1

/-- The uninterrupted run. -/
def run : Proc σ α → σ → Outcome σ α
  | .done a, s => .ok a s
  | .halt, s => .halted s
  | .step g u k, s => if g s then (k s).run (u s) else .blocked s

theorem run_bind (p : Proc σ α) (f : α → Proc σ β) (s : σ) :
    (p.bind f).run s =
      match p.run s with
      | .ok a s' => (f a).run s'
      | .halted s' => .halted s'
      | .blocked s' => .blocked s' := by
  induction p generalizing s with
  | done a => rfl
  | halt => rfl
  | step g u k ih =>
    simp only [bind, run]
    split
    · exact ih s (u s)
    · rfl

/-- A sequence returns when its first part does and the rest returns from there. -/
theorem run_bind_ok {p : Proc σ α} {f : α → Proc σ β} {s s' : σ} {b : β} :
    (p.bind f).run s = .ok b s' ↔ ∃ a t, p.run s = .ok a t ∧ (f a).run t = .ok b s' := by
  rw [run_bind]
  cases h : p.run s with
  | ok a t => simp
  | halted t => simp
  | blocked t => simp

@[simp] theorem bind_eq (p : Proc σ α) (f : α → Proc σ β) : p >>= f = p.bind f := rfl
@[simp] theorem pure_eq (a : α) : (pure a : Proc σ α) = done a := rfl
@[simp] theorem run_done (a : α) (s : σ) : (done a : Proc σ α).run s = .ok a s := rfl
@[simp] theorem run_halt (s : σ) : (halt : Proc σ α).run s = .halted s := rfl
@[simp] theorem done_bind (a : α) (f : α → Proc σ β) : (done a).bind f = f a := rfl

@[simp] theorem run_act_bind (g : σ → α × σ) (f : α → Proc σ β) (s : σ) :
    ((act g).bind f).run s = (f (g s).1).run (g s).2 := rfl

@[simp] theorem run_act (g : σ → α × σ) (s : σ) : (act g).run s = .ok (g s).1 (g s).2 := rfl

@[simp] theorem run_gets_bind (g : σ → α) (f : α → Proc σ β) (s : σ) :
    ((gets g).bind f).run s = (f (g s)).run s := rfl

@[simp] theorem run_modify_bind (u : σ → σ) (f : Unit → Proc σ β) (s : σ) :
    ((modify u).bind f).run s = (f ()).run (u s) := rfl

@[simp] theorem run_modify (u : σ → σ) (s : σ) : (modify u).run s = .ok () (u s) := rfl

@[simp] theorem run_guarded (log : σ → σ) (c : σ → Bool) (g : σ → α × σ) (s : σ) :
    (guarded log c g).run s =
      if c s then .ok (g (log s)).1 (g (log s)).2 else .halted (log s) := by
  by_cases h : c s <;> simp [guarded, run, h]

@[simp] theorem run_guarded_bind (log : σ → σ) (c : σ → Bool) (g : σ → α × σ)
    (f : α → Proc σ β) (s : σ) :
    ((guarded log c g).bind f).run s =
      if c s then (f (g (log s)).1).run (g (log s)).2 else .halted (log s) := by
  rw [run_bind, run_guarded]
  by_cases h : c s <;> simp [h]

/-! ### Frames: what every atomic step of a program leaves alone -/

/-- Every atomic step of the program is a `G`-step, whatever state it finds. -/
def Keeps (G : σ → σ → Prop) : Proc σ α → Prop
  | .done _ => True
  | .halt => True
  | .step g u k => ∀ s, g s = true → G s (u s) ∧ Keeps G (k s)

section Frames

variable {G : σ → σ → Prop}

theorem Keeps.bind {p : Proc σ α} {f : α → Proc σ β} (hp : Keeps G p)
    (hf : ∀ a, Keeps G (f a)) : Keeps G (p.bind f) := by
  induction p with
  | done a => exact hf a
  | halt => trivial
  | step g u k ih => exact fun s hs => ⟨(hp s hs).1, ih s (hp s hs).2⟩

theorem Keeps.mono {H : σ → σ → Prop} {p : Proc σ α} (hp : Keeps G p)
    (h : ∀ a b, G a b → H a b) : Keeps H p := by
  induction p with
  | done a => trivial
  | halt => trivial
  | step g u k ih => exact fun s hs => ⟨h _ _ (hp s hs).1, ih s (hp s hs).2⟩

theorem keeps_act {f : σ → α × σ} (h : ∀ s, G s (f s).2) : Keeps G (act f) :=
  fun s _ => ⟨h s, trivial⟩

theorem keeps_gets {f : σ → α} (h : ∀ s, G s s) : Keeps G (gets f) :=
  keeps_act h

theorem keeps_modify {u : σ → σ} (h : ∀ s, G s (u s)) : Keeps G (modify u) :=
  keeps_act h

theorem keeps_guarded {log : σ → σ} {c : σ → Bool} {f : σ → α × σ} (hlog : ∀ s, G s (log s))
    (h : ∀ s, c s = true → G s (f (log s)).2) : Keeps G (guarded log c f) := by
  intro s _
  by_cases hc : c s = true
  · simp [hc, h s hc, Keeps]
  · simp [hc, hlog s, Keeps]

theorem keeps_await {c : σ → Bool} {f : σ → α × σ} (h : ∀ s, c s = true → G s (f s).2) :
    Keeps G (await c f) :=
  fun s hs => ⟨h s hs, trivial⟩

/-- A frame of the steps is a frame of the whole run, however it ends. -/
theorem Keeps.run {p : Proc σ α} (hp : Keeps G p) (hrefl : ∀ s, G s s)
    (htrans : ∀ a b c, G a b → G b c → G a c) (s : σ) : G s (p.run s).state := by
  induction p generalizing s with
  | done a => exact hrefl s
  | halt => exact hrefl s
  | step g u k ih =>
    simp only [Proc.run]
    split
    · rename_i hg
      obtain ⟨h1, h2⟩ := hp s hg
      exact htrans _ _ _ h1 (ih s h2 (u s))
    · exact hrefl s

end Frames

/-! ### Interference: what holds at every interruption point -/

/-- Started in `s`, with `rely` steps of others before each of its own, the
program satisfies `I` after every step and `Q` when it returns. -/
def Holds (rely : σ → σ → Prop) (I : σ → Prop) (Q : α → σ → Prop) : Proc σ α → σ → Prop
  | .done a, s => I s ∧ Q a s
  | .halt, s => I s
  | .step g u k, s => I s ∧ ∀ s', rely s s' → g s' = true → Holds rely I Q (k s') (u s')

section Interference

variable {rely : σ → σ → Prop} {I : σ → Prop} {Q : α → σ → Prop}

theorem Holds.inv {p : Proc σ α} {s : σ} (h : Holds rely I Q p s) : I s := by
  cases p with
  | done a => exact h.1
  | halt => exact h
  | step g u k => exact h.1

/-- Foreign steps keep a program's guarantee, once they keep `I` and `Q`. -/
theorem Holds.stable {p : Proc σ α} {s s' : σ} (h : Holds rely I Q p s) (hr : rely s s')
    (htrans : ∀ a b c, rely a b → rely b c → rely a c)
    (hI : ∀ a b, rely a b → I a → I b) (hQ : ∀ v a b, rely a b → Q v a → Q v b) :
    Holds rely I Q p s' := by
  cases p with
  | done a => exact ⟨hI _ _ hr h.1, hQ a _ _ hr h.2⟩
  | halt => exact hI _ _ hr h
  | step g u k => exact ⟨hI _ _ hr h.1, fun t ht hg => h.2 t (htrans _ _ _ hr ht) hg⟩

theorem Holds.bind {p : Proc σ α} {f : α → Proc σ β} {R : β → σ → Prop} {s : σ}
    (hp : Holds rely I Q p s) (hf : ∀ a t, I t → Q a t → Holds rely I R (f a) t) :
    Holds rely I R (p.bind f) s := by
  induction p generalizing s with
  | done a => exact hf a s hp.1 hp.2
  | halt => exact hp
  | step g u k ih => exact ⟨hp.1, fun t ht hg => ih t (hp.2 t ht hg)⟩

theorem Holds.mono {p : Proc σ α} {R : α → σ → Prop} {s : σ} (h : Holds rely I Q p s)
    (hQ : ∀ a t, I t → Q a t → R a t) : Holds rely I R p s := by
  induction p generalizing s with
  | done a => exact ⟨h.1, hQ a s h.1 h.2⟩
  | halt => exact h
  | step g u k ih => exact ⟨h.1, fun t ht hg => ih t (h.2 t ht hg)⟩

/-- A program whose steps keep `P` satisfies it at every interruption point, and
with it every `I` that follows. -/
theorem Keeps.holds {p : Proc σ α} {P : σ → Prop} {s : σ} (hp : Keeps (fun a b => P a → P b) p)
    (hP : ∀ a b, rely a b → P a → P b) (hI : ∀ a, P a → I a) (h : P s) :
    Holds rely I (fun _ => P) p s := by
  induction p generalizing s with
  | done a => exact ⟨hI s h, h⟩
  | halt => exact hI s h
  | step g u k ih =>
    exact ⟨hI s h, fun t ht hg => ih t (hp t hg).2 ((hp t hg).1 (hP _ _ ht h))⟩

theorem holds_act {f : σ → α × σ} {s : σ} (h : I s)
    (hf : ∀ t, rely s t → I (f t).2 ∧ Q (f t).1 (f t).2) : Holds rely I Q (act f) s :=
  ⟨h, fun t ht _ => hf t ht⟩

theorem holds_modify {u : σ → σ} {Q : Unit → σ → Prop} {s : σ} (h : I s)
    (hu : ∀ t, rely s t → I (u t) ∧ Q () (u t)) : Holds rely I Q (modify u) s :=
  holds_act h hu

theorem holds_guarded {log : σ → σ} {c : σ → Bool} {f : σ → α × σ} {s : σ} (h : I s)
    (hlog : ∀ t, rely s t → I (log t))
    (hf : ∀ t, rely s t → c t = true → I (f (log t)).2 ∧ Q (f (log t)).1 (f (log t)).2) :
    Holds rely I Q (guarded log c f) s := by
  refine ⟨h, fun t ht _ => ?_⟩
  by_cases hc : c t = true
  · simpa [hc, Holds] using hf t ht hc
  · simpa [hc, Holds] using hlog t ht

/-- An uninterrupted run that returns has the guarantee. -/
theorem Holds.run {p : Proc σ α} {s s' : σ} {a : α} (h : Holds rely I Q p s)
    (hrefl : ∀ t, rely t t) (hrun : p.run s = .ok a s') : Q a s' := by
  induction p generalizing s with
  | done b =>
    cases hrun
    exact h.2
  | halt => cases hrun
  | step g u k ih =>
    simp only [Proc.run] at hrun
    split at hrun
    · rename_i hg
      exact ih s (h.2 s (hrefl s) hg) hrun
    · cases hrun

/-- What is left to do after a step that nothing interrupted. -/
theorem Holds.next {g : σ → Bool} {u : σ → σ} {k : σ → Proc σ α} {s : σ}
    (h : Holds rely I Q (.step g u k) s) (hr : rely s s) (hg : g s = true) :
    Holds rely I Q (k s) (u s) :=
  h.2 s hr hg

end Interference

end Proc

end Stmdsp
