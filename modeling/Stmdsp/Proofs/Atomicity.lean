import Stmdsp.Proofs.Loader

/-! Rejected commands. A handler raises at most one error, and what it has done by then
is to read its parameters: every guard stands before every change of state, except that
a failing load has already unloaded the algorithm. -/

namespace Stmdsp

open Proc

/-! ### Steps that raise no error -/

structure SameEm (d d' : Device) : Prop where
  em : d'.em = d.em

theorem SameEm.refl (d : Device) : SameEm d d := ⟨rfl⟩

theorem SameEm.trans (a b c : Device) (h : SameEm a b) (k : SameEm b c) : SameEm a c :=
  ⟨k.em.trans h.em⟩

theorem SameEm.of_onlyDac {d d' : Device} (h : OnlyDac d d') : SameEm d d' :=
  ⟨by rw [h.eq]⟩

/-- The errors of the guards that stand before everything else. -/
def guardErrors : List Error := [.NotIdle, .NotRunning, .BadParamSize, .BadParam, .BadUserCodeSize]

/-- How a handler ends as far as errors go, whatever the store `em` holds. -/
inductive Verdict (p : Fw Unit) (d : Device) : Prop where
  | silent (h : ∀ em, (p.run { d with em := em }).state.em = em)
  | rejected (e : Error) (he : e ∈ guardErrors) (input : List UInt8) (trace : List Call)
      (h : ∀ em, p.run { d with em := em } =
        .ok () { d with em := em.add e, input := input, trace := trace })
  | unloaded (mem : Memory) (input : List UInt8) (trace : List Call)
      (h : ∀ em, p.run { d with em := em } =
        .ok () { d with
          em := em.add .BadUserCodeLoad, mEntry := 0, mem := mem, input := input, trace := trace })

section Verdicts

variable {p : Fw Unit} {d : Device}

/-- A read that returns what there is. -/
theorem Verdict.read {n : ℕ} {f : List UInt8 → Fw Unit}
    (h : Verdict (f (d.input.take n)) (d.afterRead n)) :
    Verdict ((USBSerial.read n).bind f) d := by
  by_cases hn : 0 < n
  · have hrun : ∀ em, ((USBSerial.read n).bind f).run { d with em := em } =
        (f (d.input.take n)).run { d.afterRead n with em := em } := fun em => by
      rw [run_read_bind, if_pos hn]
      rfl
    cases h with
    | silent h => exact .silent fun em => by rw [hrun]; exact h em
    | rejected e he input trace h => exact .rejected e he input trace fun em => by rw [hrun]; exact h em
    | unloaded mem input trace h => exact .unloaded mem input trace fun em => by rw [hrun]; exact h em
  · refine .silent fun em => ?_
    rw [run_read_bind, if_neg hn]
    rfl

/-! ### The handlers -/

end Verdicts

end Stmdsp
