import Stmdsp.Lib.Proc

/-! Programs that ignore a part of the state: changing that part before a run makes the
same difference as changing it afterwards. Such a run neither reads nor writes it. -/

namespace Stmdsp

variable {σ α β : Type}

def Outcome.map (f : σ → σ) : Outcome σ α → Outcome σ α
  | .ok a s => .ok a (f s)
  | .halted s => .halted (f s)
  | .blocked s => .blocked (f s)

@[simp] theorem Outcome.state_map (f : σ → σ) (o : Outcome σ α) : (o.map f).state = f o.state := by
  cases o <;> rfl

namespace Proc

/-- The run of `p` from `s` ignores what the change `f` affects. -/
def Ignores (f : σ → σ) (p : Proc σ α) (s : σ) : Prop := p.run (f s) = (p.run s).map f

section Rules

variable {f : σ → σ} {s : σ}

theorem ignores_done (a : α) : Ignores f (done a) s := rfl

theorem Ignores.bind {p : Proc σ α} {q : α → Proc σ β} (hp : Ignores f p s)
    (hq : ∀ a t, p.run s = .ok a t → Ignores f (q a) t) : Ignores f (p.bind q) s := by
  rw [Ignores, run_bind, run_bind, hp]
  cases hrun : p.run s with
  | ok a t => exact hq a t hrun
  | halted t => rfl
  | blocked t => rfl

theorem ignores_act {g : σ → α × σ} (h : g (f s) = ((g s).1, f (g s).2)) : Ignores f (act g) s := by
  rw [Ignores, run_act, run_act, h]
  rfl

/-- What follows a value that is read depends on it. -/
theorem ignores_act_bind {g : σ → α × σ} {q : α → Proc σ β} (h : g (f s) = ((g s).1, f (g s).2))
    (hq : Ignores f (q (g s).1) (g s).2) : Ignores f ((act g).bind q) s := by
  rw [Ignores, run_act_bind, run_act_bind, h]
  exact hq

theorem ignores_gets_bind {g : σ → α} {q : α → Proc σ β} (h : g (f s) = g s)
    (hq : Ignores f (q (g s)) s) : Ignores f ((gets g).bind q) s :=
  ignores_act_bind (by rw [h]) hq

theorem ignores_modify {u : σ → σ} (h : u (f s) = f (u s)) : Ignores f (modify u) s :=
  ignores_act (by rw [h])

theorem ignores_modify_bind {u : σ → σ} {q : Unit → Proc σ β} (h : u (f s) = f (u s))
    (hq : Ignores f (q ()) (u s)) : Ignores f ((modify u).bind q) s :=
  ignores_act_bind (by rw [h]) hq

theorem ignores_guarded {log : σ → σ} {c : σ → Bool} {g : σ → α × σ} (hlog : log (f s) = f (log s))
    (hc : c (f s) = c s) (hg : g (f (log s)) = ((g (log s)).1, f (g (log s)).2)) :
    Ignores f (guarded log c g) s := by
  rw [Ignores, run_guarded, run_guarded, hlog, hc, hg]
  split
  · rfl
  · rfl

theorem ignores_await {c : σ → Bool} {g : σ → α × σ} (hc : c (f s) = c s)
    (hg : g (f s) = ((g s).1, f (g s).2)) : Ignores f (await c g) s := by
  simp only [Ignores, await, run, hc, hg]
  split
  · rfl
  · rfl

end Rules

end Proc

end Stmdsp
