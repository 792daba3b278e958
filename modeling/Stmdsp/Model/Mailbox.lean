import Mathlib.Tactic

/-! ChibiOS mailboxes (`chmboxes.c`), for messages of any type: the ring between
`rdptr` and `wrptr` is the list of queued messages, oldest first. -/

namespace Stmdsp

inductive MsgStatus where
  | MSG_OK
  | MSG_TIMEOUT
  | MSG_RESET
  deriving DecidableEq, Repr

/-- A mailbox over a buffer of `n` messages. -/
structure Mailbox (α : Type) (n : ℕ) where
  queue : List α
  reset : Bool
  fits : queue.length ≤ n

namespace Mailbox

variable {α : Type} {n : ℕ}

/-- `_MAILBOX_DATA` -/
def init : Mailbox α n := ⟨[], false, Nat.zero_le n⟩

def chMBGetUsedCountI (mb : Mailbox α n) : ℕ := mb.queue.length

def chMBGetFreeCountI (mb : Mailbox α n) : ℕ := n - mb.chMBGetUsedCountI

def chMBPostI (mb : Mailbox α n) (msg : α) : MsgStatus × Mailbox α n :=
  if mb.reset then (.MSG_RESET, mb)
  else if h : 0 < mb.chMBGetFreeCountI then
    (.MSG_OK, { mb with
      queue := mb.queue ++ [msg]
      fits := by simp only [chMBGetFreeCountI, chMBGetUsedCountI] at h; simp; omega })
  else (.MSG_TIMEOUT, mb)

def chMBResetI (mb : Mailbox α n) : Mailbox α n :=
  { mb with queue := [], reset := true, fits := Nat.zero_le n }

def chMBResumeX (mb : Mailbox α n) : Mailbox α n := { mb with reset := false }

/-- What a thread inside `chMBFetchTimeout` with `TIME_INFINITE` finds when it
looks: the reset state, a message, or nothing, in which case it goes on waiting. -/
inductive Fetch (α : Type) (n : ℕ) where
  | reset
  | message (msg : α) (mb : Mailbox α n)
  | wait

def chMBFetchTimeoutS (mb : Mailbox α n) : Fetch α n :=
  if mb.reset then .reset
  else match h : mb.queue with
    | [] => .wait
    | msg :: rest => .message msg
        { mb with queue := rest, fits := by have := mb.fits; simp [h] at this; omega }

/-! ### What each operation does to the queue -/

variable {mb mb' : Mailbox α n}

theorem post_of_free (msg : α) (hr : mb.reset = false) (hf : mb.queue.length < n) :
    (mb.chMBPostI msg).1 = .MSG_OK ∧ (mb.chMBPostI msg).2.queue = mb.queue ++ [msg] ∧
      (mb.chMBPostI msg).2.reset = false := by
  have hfree : 0 < mb.chMBGetFreeCountI := by
    simp only [chMBGetFreeCountI, chMBGetUsedCountI]; omega
  simp [chMBPostI, hr, hfree]

theorem post_of_full (msg : α) (hr : mb.reset = false) (hf : n ≤ mb.queue.length) :
    mb.chMBPostI msg = (.MSG_TIMEOUT, mb) := by
  have hfree : ¬ 0 < mb.chMBGetFreeCountI := by
    simp only [chMBGetFreeCountI, chMBGetUsedCountI]; omega
  simp [chMBPostI, hr, hfree]

theorem fetch_message {msg : α} (h : mb.chMBFetchTimeoutS = .message msg mb') :
    mb.queue = msg :: mb'.queue ∧ mb'.reset = mb.reset := by
  unfold chMBFetchTimeoutS at h
  split at h
  · simp at h
  · split at h
    · simp at h
    · rename_i hq
      simp only [Fetch.message.injEq] at h
      obtain ⟨rfl, rfl⟩ := h
      exact ⟨hq, rfl⟩

end Mailbox

end Stmdsp
