import Stmdsp.Lib.RingBuffer
import Stmdsp.Model.Buffers

/-! Buffers queues as first-in first-out queues of byte blocks: what is full, what a
thread has still to read or has begun to write, and what every operation of the driver
and of the thread does to it. -/

namespace Stmdsp

namespace ThreadsQueue

@[simp] theorem dequeue_empty (msg : MsgStatus) : empty.dequeue msg = empty := rfl

/-- A thread resumed with a message was so before, or is now. -/
theorem dequeue_ne {tq : ThreadsQueue} {msg msg' : MsgStatus} (h : tq ≠ .resumed msg)
    (hne : msg' ≠ msg) : tq.dequeue msg' ≠ .resumed msg := by
  cases tq with
  | empty => exact h
  | waiting => simpa [dequeue] using hne
  | resumed m => exact h

theorem dequeue_ne_waiting {tq : ThreadsQueue} {msg : MsgStatus} : tq.dequeue msg ≠ .waiting := by
  cases tq with
  | empty => exact fun h => by cases h
  | waiting => exact fun h => by cases h
  | resumed m => exact fun h => by cases h

end ThreadsQueue

namespace IoBuffersQueue

/-- The data of the buffer at an offset. -/
def buffer (q : IoBuffersQueue) (p : ℕ) : List UInt8 := slice q.mem (p + SIZEOF_SIZE_T) (q.size p)

/-- The data of `cnt` full buffers, oldest first. -/
def full (q : IoBuffersQueue) (cnt : ℕ) : List (List UInt8) :=
  RingBuffer.queued q.buffer q.bsize q.bn q.brdptr cnt

/-- What an input queue holds that no thread has read. -/
def unread (q : IoBuffersQueue) : List UInt8 :=
  (q.full q.bcounter).flatten.drop (q.ptr.elim 0 fun p => p - (q.brdptr + SIZEOF_SIZE_T))

/-- What a thread has written into a buffer that is not posted. -/
def begun (q : IoBuffersQueue) : List UInt8 :=
  q.ptr.elim [] fun p => slice q.mem (q.bwrptr + SIZEOF_SIZE_T) (p - (q.bwrptr + SIZEOF_SIZE_T))

/-- The full buffers of an output queue. -/
def obqFull (q : IoBuffersQueue) : List (List UInt8) := q.full (q.bn - q.bcounter)

/-- What an output queue holds of the bytes written to it. -/
def pending (q : IoBuffersQueue) : List UInt8 := q.obqFull.flatten ++ q.begun

/-- The ring of buffers, of which `cnt` are full. -/
structure BufferRing (bsize bn btop brdptr bwrptr cnt : ℕ) (size : ℕ → ℕ) (mem : ℕ → UInt8) :
    Prop where
  header : SIZEOF_SIZE_T < bsize
  top : btop = bsize * bn
  ring : RingBuffer.Strided bsize bn brdptr bwrptr cnt
  fits : ∀ p, size p ≤ bsize - SIZEOF_SIZE_T
  filled : ∀ b ∈ RingBuffer.queued (fun p => slice mem (p + SIZEOF_SIZE_T) (size p))
    bsize bn brdptr cnt, b ≠ []

def RingOk (q : IoBuffersQueue) (cnt : ℕ) : Prop :=
  BufferRing q.bsize q.bn q.btop q.brdptr q.bwrptr cnt q.size q.mem

/-- An input queue; the thread reads in the first full buffer. -/
structure InOk (q : IoBuffersQueue) : Prop where
  ring : q.RingOk q.bcounter
  ptr : ∀ p, q.ptr = some p → 0 < q.bcounter ∧ q.brdptr + SIZEOF_SIZE_T ≤ p ∧ p < q.top ∧
    q.top = q.brdptr + SIZEOF_SIZE_T + q.size q.brdptr

/-- An output queue; the thread writes in the first empty buffer. -/
structure OutOk (q : IoBuffersQueue) : Prop where
  counter : q.bcounter ≤ q.bn
  ring : q.RingOk (q.bn - q.bcounter)
  ptr : ∀ p, q.ptr = some p → 0 < q.bcounter ∧ q.bwrptr + SIZEOF_SIZE_T ≤ p ∧ p < q.top ∧
    q.top = q.bwrptr + q.bsize

variable {q q' : IoBuffersQueue} {cnt size : ℕ}

@[simp] theorem buffer_length (p : ℕ) : (q.buffer p).length = q.size p := slice_length

@[simp] theorem full_length : (q.full cnt).length = cnt := RingBuffer.queued_length

namespace RingOk

theorem advance_eq (h : q.RingOk cnt) (p : ℕ) :
    q.advance p = RingBuffer.nextAt q.bsize q.bn p := by
  rw [advance, h.top, RingBuffer.nextAt]

theorem cnt_le (h : q.RingOk cnt) : cnt ≤ q.bn := h.ring.cnt_le

theorem full_succ (h : q.RingOk (cnt + 1)) :
    q.full (cnt + 1) = q.buffer q.brdptr :: RingBuffer.queued q.buffer q.bsize q.bn
      (q.advance q.brdptr) cnt := by
  rw [h.advance_eq, full, RingBuffer.queued_pop h.ring]

theorem filled_full (h : q.RingOk cnt) : ∀ b ∈ q.full cnt, b ≠ [] := h.filled

theorem head_pos (h : q.RingOk (cnt + 1)) : 0 < q.size q.brdptr := by
  have hmem : q.buffer q.brdptr ∈ q.full (cnt + 1) := by
    rw [h.full_succ]
    exact List.mem_cons_self
  rw [← buffer_length q.brdptr]
  exact List.length_pos_iff.mpr (h.filled_full _ hmem)

/-- Writing to the data of the buffer at `bwrptr` leaves the other buffers alone. -/
theorem buffer_eq {mem : ℕ → UInt8} (h : q.RingOk cnt)
    (hmem : ∀ i, i < q.bwrptr + SIZEOF_SIZE_T ∨ q.bwrptr + q.bsize ≤ i → mem i = q.mem i)
    {i : ℕ} (hne : q.bsize * i ≠ q.bwrptr) :
    slice mem (q.bsize * i + SIZEOF_SIZE_T) (q.size (q.bsize * i)) = q.buffer (q.bsize * i) := by
  rw [buffer]
  apply slice_congr
  intro k hk
  apply hmem
  have hh := h.header
  have hs := h.fits (q.bsize * i)
  rcases h.ring.apart hne with hap | hap
  · exact .inl (by omega)
  · exact .inr (by omega)

/-- And the full ones too, while there is an empty one. -/
theorem full_write {mem : ℕ → UInt8} (h : q.RingOk cnt) (hfree : cnt < q.bn)
    (hmem : ∀ i, i < q.bwrptr + SIZEOF_SIZE_T ∨ q.bwrptr + q.bsize ≤ i → mem i = q.mem i) :
    ({ q with mem := mem } : IoBuffersQueue).full cnt = q.full cnt := by
  apply RingBuffer.queued_write h.ring hfree
  intro i hne
  exact h.buffer_eq hmem hne

theorem write {mem : ℕ → UInt8} (h : q.RingOk cnt) (hfree : cnt < q.bn)
    (hmem : ∀ i, i < q.bwrptr + SIZEOF_SIZE_T ∨ q.bwrptr + q.bsize ≤ i → mem i = q.mem i) :
    ({ q with mem := mem } : IoBuffersQueue).RingOk cnt := by
  refine ⟨h.header, h.top, h.ring, h.fits, ?_⟩
  intro b hb
  apply h.filled_full
  rw [← h.full_write hfree hmem]
  exact hb

end RingOk

/-- The buffer at `bwrptr` made a full one. -/
def push (q : IoBuffersQueue) (size : ℕ) : IoBuffersQueue :=
  { q with size := Function.update q.size q.bwrptr size, bwrptr := q.advance q.bwrptr }

/-- The buffer at `brdptr` made an empty one. -/
def pop (q : IoBuffersQueue) : IoBuffersQueue := { q with brdptr := q.advance q.brdptr }

theorem push_size : (q.push size).size = Function.update q.size q.bwrptr size := rfl

theorem push_buffer_self :
    (q.push size).buffer q.bwrptr = slice q.mem (q.bwrptr + SIZEOF_SIZE_T) size := by
  rw [buffer, push_size, Function.update_self]
  rfl

theorem push_buffer_of_ne {p : ℕ} (hne : p ≠ q.bwrptr) : (q.push size).buffer p = q.buffer p := by
  rw [buffer, push_size, Function.update_of_ne hne]
  rfl

namespace RingOk

theorem full_push (h : q.RingOk cnt) (size : ℕ) (hfree : cnt < q.bn) :
    (q.push size).full (cnt + 1) =
      q.full cnt ++ [slice q.mem (q.bwrptr + SIZEOF_SIZE_T) size] := by
  rw [← push_buffer_self]
  apply RingBuffer.queued_push h.ring hfree
  intro i hne
  exact push_buffer_of_ne hne

theorem push (h : q.RingOk cnt) (hfree : cnt < q.bn) (hpos : 0 < size)
    (hle : size ≤ q.bsize - SIZEOF_SIZE_T) : (q.push size).RingOk (cnt + 1) := by
  refine ⟨h.header, h.top, ?_, ?_, ?_⟩
  · have := h.ring.push hfree
    rwa [← h.advance_eq] at this
  · intro p
    rw [push_size]
    by_cases hp : p = q.bwrptr
    · rw [hp, Function.update_self]
      exact hle
    · rw [Function.update_of_ne hp]
      exact h.fits p
  · intro b hb
    have hfull := h.full_push size hfree
    have hb' : b ∈ (q.push size).full (cnt + 1) := hb
    rw [hfull, List.mem_append, List.mem_singleton] at hb'
    rcases hb' with hb' | rfl
    · exact h.filled b hb'
    · apply List.ne_nil_of_length_pos
      rwa [slice_length]

theorem full_pop (h : q.RingOk (cnt + 1)) :
    q.full (cnt + 1) = q.buffer q.brdptr :: q.pop.full cnt := h.full_succ

theorem pop (h : q.RingOk (cnt + 1)) : q.pop.RingOk cnt := by
  refine ⟨h.header, h.top, ?_, h.fits, ?_⟩
  · have := h.ring.pop
    rwa [← h.advance_eq] at this
  · intro b hb
    apply h.filled_full
    rw [h.full_pop]
    exact List.mem_cons_of_mem _ hb

/-- With buffers full, the pointers meet when all of them are. -/
theorem bwrptr_eq_iff (h : q.RingOk cnt) : q.bwrptr = q.brdptr ↔ cnt = 0 ∨ cnt = q.bn :=
  h.ring.wr_eq_rd_iff

end RingOk

/-! ### Input queues -/

/-- How far the thread is in the first full buffer. -/
def taken (q : IoBuffersQueue) : ℕ := q.ptr.elim 0 fun p => p - (q.brdptr + SIZEOF_SIZE_T)

theorem unread_eq : q.unread = (q.full q.bcounter).flatten.drop q.taken := rfl

theorem unread_of_none (h : q.ptr = none) : q.unread = (q.full q.bcounter).flatten := by
  rw [unread_eq, taken, h, Option.elim_none, List.drop_zero]

namespace InOk

theorem bn_pos (h : q.InOk) : 0 < q.bn := by
  obtain ⟨-, i, j, -, -, hok⟩ := h.ring.ring
  exact Nat.zero_lt_of_lt hok.rd_lt

theorem full_iff (h : q.InOk) : q.ibqIsFullI = true ↔ q.bcounter = q.bn := by
  have hpos := h.bn_pos
  rw [ibqIsFullI, Bool.and_eq_true, beq_iff_eq, h.ring.bwrptr_eq_iff, bne_iff_ne]
  omega

theorem not_full_iff (h : q.InOk) : q.ibqIsFullI = false ↔ q.bcounter < q.bn := by
  have hle := h.ring.cnt_le
  rw [← Bool.not_eq_true, h.full_iff]
  omega

/-- The first full buffer, and the others. -/
theorem full_eq (h : q.InOk) (hpos : 0 < q.bcounter) :
    q.full q.bcounter = q.buffer q.brdptr :: q.pop.full (q.bcounter - 1) := by
  obtain ⟨k, hk⟩ := Nat.exists_eq_succ_of_ne_zero (Nat.ne_of_gt hpos)
  have hr := h.ring
  rw [hk] at hr
  rw [hk]
  exact hr.full_pop

theorem taken_le (h : q.InOk) : q.taken ≤ (q.full q.bcounter).flatten.length := by
  rw [taken]
  cases hptr : q.ptr with
  | none => exact Nat.zero_le _
  | some p =>
    obtain ⟨hpos, hge, hlt, htop⟩ := h.ptr p hptr
    rw [h.full_eq hpos, List.flatten_cons, List.length_append, buffer_length, Option.elim_some]
    omega

/-- What the thread has before it in the first full buffer. -/
theorem unread_of_some (h : q.InOk) {p : ℕ} (hptr : q.ptr = some p) :
    q.unread = slice q.mem p (q.top - p) ++ (q.pop.full (q.bcounter - 1)).flatten := by
  obtain ⟨hpos, hge, hlt, htop⟩ := h.ptr p hptr
  rw [unread_eq, taken, hptr, Option.elim_some, h.full_eq hpos, List.flatten_cons,
    List.drop_append_of_le_length (by rw [buffer_length]; omega), buffer, slice_drop]
  congr 2 <;> omega

theorem reset (h : q.InOk) : q.ibqResetI.InOk := by
  refine ⟨⟨h.ring.header, h.ring.top, ?_, h.ring.fits, ?_⟩, ?_⟩
  · exact .empty h.ring.ring.pos h.bn_pos
  · intro b hb
    simp [ibqResetI, resetI] at hb
  · intro p hp
    simp [ibqResetI, resetI] at hp

/-- Data received into the buffer at `bwrptr`. -/
theorem write {mem : ℕ → UInt8} (h : q.InOk) (hfree : q.bcounter < q.bn)
    (hmem : ∀ i, i < q.bwrptr + SIZEOF_SIZE_T ∨ q.bwrptr + q.bsize ≤ i → mem i = q.mem i) :
    ({ q with mem := mem } : IoBuffersQueue).InOk :=
  ⟨h.ring.write hfree hmem, h.ptr⟩

theorem unread_write {mem : ℕ → UInt8} (h : q.InOk) (hfree : q.bcounter < q.bn)
    (hmem : ∀ i, i < q.bwrptr + SIZEOF_SIZE_T ∨ q.bwrptr + q.bsize ≤ i → mem i = q.mem i) :
    ({ q with mem := mem } : IoBuffersQueue).unread = q.unread := by
  have hfull := h.ring.full_write hfree hmem
  exact congrArg (fun l : List (List UInt8) => l.flatten.drop q.taken) hfull

end InOk

/-- What `ibqPostFullBufferI` leaves: the block at the end, and the thread's place in
the first buffer. -/
structure PostedIn (q q' : IoBuffersQueue) (size : ℕ) : Prop where
  ok : q'.InOk
  unread : q'.unread = q.unread ++ slice q.mem (q.bwrptr + SIZEOF_SIZE_T) size
  bcounter : q'.bcounter = q.bcounter + 1
  ptr : q'.ptr = q.ptr
  waiting : q'.waiting = q.waiting.dequeue .MSG_OK
  bsize : q'.bsize = q.bsize
  bn : q'.bn = q.bn
  suspended : q'.suspended = q.suspended

/-- It posts unless the queue is full. -/
theorem InOk.post (h : q.InOk) (hfree : q.bcounter < q.bn) (hpos : 0 < size)
    (hle : size ≤ q.bsize - SIZEOF_SIZE_T) :
    ∃ q', q.ibqPostFullBufferI size = some q' ∧ PostedIn q q' size := by
  refine ⟨_, if_pos ⟨hpos, hle, h.not_full_iff.mpr hfree⟩, ⟨?_, ?_⟩, ?_, rfl, rfl, rfl, rfl,
    rfl, rfl⟩
  · exact h.ring.push hfree hpos hle
  · intro p hp
    obtain ⟨hcnt, hge, hlt, htop⟩ := h.ptr p hp
    refine ⟨Nat.succ_pos _, hge, hlt, ?_⟩
    -- The buffer being read is not the one that was filled.
    have hne : q.brdptr ≠ q.bwrptr := by
      intro heq
      have := h.ring.bwrptr_eq_iff.mp heq.symm
      omega
    show q.top = q.brdptr + SIZEOF_SIZE_T + Function.update q.size q.bwrptr size q.brdptr
    rw [Function.update_of_ne hne]
    exact htop
  · have hfull : ((q.push size).full (q.bcounter + 1)).flatten.drop q.taken =
        q.unread ++ slice q.mem (q.bwrptr + SIZEOF_SIZE_T) size := by
      rw [h.ring.full_push size hfree, List.flatten_append, List.drop_append_of_le_length h.taken_le,
        List.flatten_singleton, unread_eq]
    exact hfull

/-- What a pass of `ibqReadTimeout` that moves bytes leaves: they are the next ones, and
a buffer read to its end is an empty one again. -/
structure TookIn (q q' : IoBuffersQueue) (bytes : List UInt8) (n : ℕ) (notify : Bool) : Prop where
  ok : q'.InOk
  unread : q.unread = bytes ++ q'.unread
  some_moved : 0 < bytes.length
  length_le : bytes.length ≤ n
  bcounter : q'.bcounter + (if notify then 1 else 0) = q.bcounter
  bwrptr : q'.bwrptr = q.bwrptr
  mem : q'.mem = q.mem
  bsize : q'.bsize = q.bsize
  bn : q'.bn = q.bn
  suspended : q'.suspended = q.suspended

theorem chunk_pos {p n : ℕ} (hp : p < q.top) (hn : 0 < n) : 0 < q.chunk p n := by
  simp only [chunk, BUFFERS_CHUNKS_SIZE]
  split <;> split <;> omega

theorem chunk_le {p n : ℕ} : q.chunk p n ≤ n ∧ q.chunk p n ≤ q.top - p := by
  simp only [chunk, BUFFERS_CHUNKS_SIZE]
  constructor
  · split <;> split <;> omega
  · split <;> split <;> omega

theorem InOk.take (h : q.InOk) {p n : ℕ} (hptr : q.ptr = some p) (hn : 0 < n) :
    ∃ bytes notify q', q.ibqTake p n = some (.moved bytes notify q') ∧
      TookIn q q' bytes n notify ∧ q'.waiting = q.waiting := by
  obtain ⟨hpos, hge, hlt, htop⟩ := h.ptr p hptr
  have hc := q.chunk_pos hlt hn
  obtain ⟨hcn, hct⟩ := q.chunk_le (p := p) (n := n)
  have hunread := h.unread_of_some hptr
  rw [ibqTake]
  by_cases hend : q.top ≤ p + q.chunk p n
  · have hne : q.ibqIsEmptyI = false := by
      rw [ibqIsEmptyI, beq_eq_false_iff_ne]
      omega
    rw [if_pos hend, ibqReleaseEmptyBufferS]
    refine ⟨_, _, _, by rw [if_neg (by rw [Bool.not_eq_true]; exact hne)]; rfl, ?_⟩
    obtain ⟨k, hk⟩ := Nat.exists_eq_succ_of_ne_zero (Nat.ne_of_gt hpos)
    have hr := h.ring
    rw [hk] at hr
    refine ⟨⟨⟨?_, ?_⟩, ?_, ?_, ?_, ?_, rfl, rfl, rfl, rfl, rfl⟩, rfl⟩
    · simp only [hk, Nat.succ_sub_one]
      exact hr.pop
    · intro p' hp'
      simp at hp'
    · rw [hunread, unread_of_none rfl, show q.top - p = q.chunk p n by omega]
      rfl
    · rwa [slice_length]
    · rwa [slice_length]
    · simp only [if_true]
      omega
  · have hq' : InOk { q with ptr := some (p + q.chunk p n) } := by
      refine ⟨h.ring, ?_⟩
      intro p' hp'
      obtain rfl := Option.some.inj hp'
      exact ⟨hpos, Nat.le_add_right_of_le hge, Nat.lt_of_not_le hend, htop⟩
    rw [if_neg hend]
    refine ⟨_, _, _, rfl, ⟨hq', ?_, ?_, ?_, rfl, rfl, rfl, rfl, rfl, rfl⟩, rfl⟩
    · rw [hunread, hq'.unread_of_some rfl, ← List.append_assoc, ← slice_add,
        show q.chunk p n + (q.top - (p + q.chunk p n)) = q.top - p by omega]
      rfl
    · rwa [slice_length]
    · rwa [slice_length]

/-- Why a thread gives up waiting for a buffer. -/
inductive GivenUp (q : IoBuffersQueue) : Prop
  | told {msg : MsgStatus} (h : q.waiting = .resumed msg) (hmsg : msg ≠ .MSG_OK)
  | suspended (h : q.suspended = true)

/-- How `ibqGetFullBufferTimeoutS` goes on: with the first full buffer, with
`MSG_RESET`, or not before the thread has been woken. -/
inductive GotFull (q : IoBuffersQueue) : Acquired → Prop
  | ready (hcnt : 0 < q.bcounter) : GotFull q (.ready { q with
      waiting := .empty
      ptr := some (q.brdptr + SIZEOF_SIZE_T)
      top := q.brdptr + SIZEOF_SIZE_T + q.size q.brdptr })
  | reset (hwhy : q.GivenUp) :
      GotFull q (.reset { q with waiting := .empty })
  | wait (tq : ThreadsQueue) (htq : tq = .waiting)
      (hwhy : q.waiting = .waiting ∨ q.bcounter = 0 ∧ q.suspended = false) :
      GotFull q (.wait { q with waiting := tq })

theorem gotFull_look (q : IoBuffersQueue) : GotFull q
    (if q.ibqIsEmptyI then
      if q.suspended then .reset { q with waiting := .empty } else .wait { q with waiting := .waiting }
    else .ready { q with
      waiting := .empty
      ptr := some (q.brdptr + SIZEOF_SIZE_T)
      top := q.brdptr + SIZEOF_SIZE_T + q.size q.brdptr }) := by
  by_cases he : q.ibqIsEmptyI = true
  · rw [if_pos he]
    rw [ibqIsEmptyI, beq_iff_eq] at he
    by_cases hs : q.suspended = true
    · rw [if_pos hs]
      exact .reset (.suspended hs)
    · rw [if_neg hs]
      exact .wait .waiting rfl (.inr ⟨he, Bool.not_eq_true _ ▸ hs⟩)
  · rw [if_neg he]
    rw [ibqIsEmptyI, beq_iff_eq] at he
    exact .ready (Nat.pos_of_ne_zero he)

theorem gotFull (q : IoBuffersQueue) : GotFull q q.ibqGetFullBufferTimeoutS := by
  rw [ibqGetFullBufferTimeoutS]
  cases hw : q.waiting with
  | empty => exact gotFull_look q
  | waiting => exact .wait q.waiting hw (.inl hw)
  | resumed msg =>
    cases msg with
    | MSG_OK => exact gotFull_look q
    | MSG_TIMEOUT => exact .reset (.told hw (by decide))
    | MSG_RESET => exact .reset (.told hw (by decide))

/-- What a pass of `ibqReadTimeout` with `n` bytes to go does. -/
inductive ReadPassed (q : IoBuffersQueue) (n : ℕ) : Pass → Prop
  | moved {bytes : List UInt8} {notify : Bool} {q' : IoBuffersQueue}
      (h : TookIn q q' bytes n notify)
      (hw : q'.waiting = .empty ∨ q.ptr ≠ none ∧ q'.waiting = q.waiting) :
      ReadPassed q n (.moved bytes notify q')
  | reset (hptr : q.ptr = none) (hwhy : q.GivenUp) :
      ReadPassed q n (.reset { q with waiting := .empty })
  | wait (hptr : q.ptr = none) (tq : ThreadsQueue) (htq : tq = .waiting)
      (hwhy : q.waiting = .waiting ∨ q.bcounter = 0 ∧ q.suspended = false) :
      ReadPassed q n (.wait { q with waiting := tq })

/-- No assertion of a pass fails. -/
theorem InOk.readPass (h : q.InOk) {n : ℕ} (hn : 0 < n) :
    ∃ r, q.ibqReadPass n = some r ∧ ReadPassed q n r := by
  rw [ibqReadPass]
  cases hptr : q.ptr with
  | some p =>
    obtain ⟨bytes, notify, q', heq, htook, hw⟩ := h.take hptr hn
    exact ⟨_, heq, .moved htook (.inr ⟨by rw [hptr]; exact Option.some_ne_none p, hw⟩)⟩
  | none =>
    have hgot := gotFull q
    cases hacq : q.ibqGetFullBufferTimeoutS with
    | ready q₁ =>
      rw [hacq] at hgot
      cases hgot with
      | ready hcnt =>
        have hok : InOk { q with
            waiting := .empty
            ptr := some (q.brdptr + SIZEOF_SIZE_T)
            top := q.brdptr + SIZEOF_SIZE_T + q.size q.brdptr } := by
          refine ⟨h.ring, ?_⟩
          intro p hp
          obtain rfl := Option.some.inj hp
          obtain ⟨k, hk⟩ := Nat.exists_eq_succ_of_ne_zero (Nat.ne_of_gt hcnt)
          have hr := h.ring
          rw [hk] at hr
          exact ⟨hcnt, le_rfl, Nat.lt_add_of_pos_right hr.head_pos, rfl⟩
        obtain ⟨bytes, notify, q', heq, htook, hw⟩ := hok.take rfl hn
        refine ⟨_, heq, .moved { htook with unread := ?_ } (.inl hw)⟩
        rw [unread_of_none hptr, ← htook.unread, unread_eq, taken, Option.elim_some, Nat.sub_self,
          List.drop_zero]
        rfl
    | reset q₁ =>
      rw [hacq] at hgot
      cases hgot with
      | reset hwhy => exact ⟨_, rfl, .reset hptr hwhy⟩
    | wait q₁ =>
      rw [hacq] at hgot
      cases hgot with
      | wait tq htq hwhy => exact ⟨_, rfl, .wait hptr tq htq hwhy⟩

/-! ### Output queues -/

namespace OutOk

theorem bn_pos (h : q.OutOk) : 0 < q.bn := by
  obtain ⟨-, i, j, -, -, hok⟩ := h.ring.ring
  exact Nat.zero_lt_of_lt hok.rd_lt

theorem empty_iff (h : q.OutOk) : q.obqIsEmptyI = true ↔ q.bcounter = q.bn := by
  have hle := h.counter
  have hpos := h.bn_pos
  rw [obqIsEmptyI, Bool.and_eq_true, beq_iff_eq, h.ring.bwrptr_eq_iff, bne_iff_ne]
  omega

theorem obqFull_length : q.obqFull.length = q.bn - q.bcounter := full_length

theorem obqFull_eq_nil_iff (h : q.OutOk) : q.obqFull = [] ↔ q.bcounter = q.bn := by
  have hle := h.counter
  rw [← List.length_eq_zero_iff, obqFull_length]
  omega

theorem not_empty (h : q.OutOk) (hlt : q.bcounter < q.bn) : q.obqIsEmptyI = false := by
  rw [← Bool.not_eq_true, h.empty_iff]
  omega

/-- The first full buffer, and the others. -/
theorem full_eq (h : q.OutOk) (hlt : q.bcounter < q.bn) :
    q.obqFull = q.buffer q.brdptr :: q.pop.full (q.bn - (q.bcounter + 1)) := by
  have hr := h.ring
  rw [show q.bn - q.bcounter = q.bn - (q.bcounter + 1) + 1 by omega] at hr
  rw [obqFull, show q.bn - q.bcounter = q.bn - (q.bcounter + 1) + 1 by omega]
  exact hr.full_pop

theorem getFull (h : q.OutOk) (hlt : q.bcounter < q.bn) :
    q.obqGetFullBufferI = some (q.brdptr + SIZEOF_SIZE_T, q.size q.brdptr) := by
  rw [obqGetFullBufferI, h.not_empty hlt]
  rfl

theorem getFull_none (h : q.OutOk) (heq : q.bcounter = q.bn) : q.obqGetFullBufferI = none := by
  rw [obqGetFullBufferI, h.empty_iff.mpr heq]
  rfl

theorem head_pos (h : q.OutOk) (hlt : q.bcounter < q.bn) : 0 < q.size q.brdptr := by
  have hr := h.ring
  rw [show q.bn - q.bcounter = q.bn - (q.bcounter + 1) + 1 by omega] at hr
  exact hr.head_pos

theorem reset (h : q.OutOk) : q.obqResetI.OutOk := by
  refine ⟨le_rfl, ⟨h.ring.header, h.ring.top, ?_, h.ring.fits, ?_⟩, ?_⟩
  · simp only [obqResetI, resetI, Nat.sub_self]
    exact .empty h.ring.ring.pos h.bn_pos
  · intro b hb
    simp [obqResetI, resetI] at hb
  · intro p hp
    simp [obqResetI, resetI] at hp

theorem pending_reset : q.obqResetI.pending = [] := by
  simp [pending, obqFull, full, begun, obqResetI, resetI]

end OutOk

/-- What `obqReleaseEmptyBufferI` leaves. -/
structure ReleasedOut (q q' : IoBuffersQueue) : Prop where
  ok : q'.OutOk
  full : q.obqFull = q.buffer q.brdptr :: q'.obqFull
  begun : q'.begun = q.begun
  ptr : q'.ptr = q.ptr
  waiting : q'.waiting = q.waiting.dequeue .MSG_OK
  bsize : q'.bsize = q.bsize
  bn : q'.bn = q.bn
  suspended : q'.suspended = q.suspended

theorem OutOk.release (h : q.OutOk) (hlt : q.bcounter < q.bn) :
    ∃ q', q.obqReleaseEmptyBufferI = some q' ∧ ReleasedOut q q' := by
  refine ⟨_, if_neg (by rw [Bool.not_eq_true]; exact h.not_empty hlt), ⟨hlt, ?_, ?_⟩, ?_, rfl, rfl,
    rfl, rfl, rfl, rfl⟩
  · have hr := h.ring
    rw [show q.bn - q.bcounter = q.bn - (q.bcounter + 1) + 1 by omega] at hr
    exact hr.pop
  · intro p hp
    obtain ⟨hpos, hrest⟩ := h.ptr p hp
    exact ⟨Nat.succ_pos _, hrest⟩
  · exact h.full_eq hlt

/-- Releasing a buffer drops its bytes. -/
theorem ReleasedOut.pending (h : ReleasedOut q q') : q'.pending = q.pending.drop (q.size q.brdptr) := by
  rw [IoBuffersQueue.pending, IoBuffersQueue.pending, h.full, h.begun, List.flatten_cons,
    List.append_assoc, List.drop_left' (buffer_length _)]

/-- What posting a buffer leaves. -/
structure PostedOut (q q' : IoBuffersQueue) (size : ℕ) : Prop where
  ok : q'.OutOk
  full : q'.obqFull = q.obqFull ++ [slice q.mem (q.bwrptr + SIZEOF_SIZE_T) size]
  begun : q'.begun = []
  ptr : q'.ptr = none
  waiting : q'.waiting = q.waiting
  brdptr : q'.brdptr = q.brdptr
  bsize : q'.bsize = q.bsize
  bn : q'.bn = q.bn
  suspended : q'.suspended = q.suspended

theorem RingOk.posted (h : q.RingOk (q.bn - q.bcounter)) (size : ℕ) (hcnt : q.bcounter ≤ q.bn)
    (hfree : 0 < q.bcounter) (hpos : 0 < size) (hle : size ≤ q.bsize - SIZEOF_SIZE_T) :
    PostedOut q (q.posted size) size := by
  have hlt : q.bn - q.bcounter < q.bn := by omega
  have hsucc : q.bn - (q.bcounter - 1) = q.bn - q.bcounter + 1 := by omega
  refine ⟨⟨?_, ?_, ?_⟩, ?_, rfl, rfl, rfl, rfl, rfl, rfl, rfl⟩
  · exact Nat.le_trans (Nat.sub_le _ _) hcnt
  · have hr := h.push hlt hpos hle
    rw [← hsucc] at hr
    exact hr
  · intro p hp
    simp [IoBuffersQueue.posted] at hp
  · have hf := h.full_push size hlt
    rw [← hsucc] at hf
    exact hf

/-- `obqTryFlushI` posts what has been begun, when no buffer is full. -/
theorem OutOk.tryFlush (h : q.OutOk) :
    (q.obqTryFlushI = (false, q) ∧ (q.obqFull ≠ [] ∨ q.begun = [])) ∨
    (q.obqFull = [] ∧ q.begun ≠ [] ∧ ∃ q', q.obqTryFlushI = (true, q') ∧
      PostedOut q q' q.begun.length ∧ q'.obqFull = [q.begun]) := by
  rw [obqTryFlushI]
  cases hptr : q.ptr with
  | none => exact .inl ⟨rfl, .inr (by rw [begun, hptr, Option.elim_none])⟩
  | some p =>
    obtain ⟨hpos, hge, hlt, htop⟩ := h.ptr p hptr
    have hh := h.ring.header
    have hbegun : q.begun = slice q.mem (q.bwrptr + SIZEOF_SIZE_T) (p - (q.bwrptr + SIZEOF_SIZE_T)) := by
      rw [begun, hptr, Option.elim_some]
    have hlen : q.begun.length = p - (q.bwrptr + SIZEOF_SIZE_T) := by rw [hbegun, slice_length]
    by_cases hc : (q.obqIsEmptyI && decide (0 < p - (q.bwrptr + SIZEOF_SIZE_T))) = true
    · rw [Bool.and_eq_true, decide_eq_true_eq] at hc
      have hnil := h.obqFull_eq_nil_iff.mpr (h.empty_iff.mp hc.1)
      have hposted := h.ring.posted _ h.counter hpos hc.2 (by omega)
      refine .inr ⟨hnil, List.ne_nil_of_length_pos (by omega), _,
        if_pos (by rw [Bool.and_eq_true, decide_eq_true_eq]; exact hc), ?_, ?_⟩
      · rwa [hlen]
      · rw [hposted.full, hnil, List.nil_append, hbegun]
    · refine .inl ⟨if_neg hc, ?_⟩
      rw [Bool.and_eq_true, decide_eq_true_eq, not_and_or, h.empty_iff, ← h.obqFull_eq_nil_iff,
        ← hlen] at hc
      exact hc.imp_right fun hz => List.length_eq_zero_iff.mp (Nat.eq_zero_of_not_pos hz)

/-- Buffers posted behind a full one leave it the first. -/
theorem OutOk.head_eq {l : List (List UInt8)} (h : q.OutOk) (h' : q'.OutOk)
    (hlt : q.bcounter < q.bn) (hfull : q'.obqFull = q.obqFull ++ l) :
    q'.bcounter < q'.bn ∧ q'.size q'.brdptr = q.size q.brdptr := by
  have hne : q'.obqFull ≠ [] := by
    rw [hfull, h.full_eq hlt]
    exact List.cons_ne_nil _ _
  have hlt' : q'.bcounter < q'.bn := Nat.lt_of_le_of_ne h'.counter (h'.obqFull_eq_nil_iff.not.mp hne)
  rw [h'.full_eq hlt', h.full_eq hlt, List.cons_append, List.cons.injEq] at hfull
  rw [← buffer_length, ← buffer_length q.brdptr, hfull.1]
  exact ⟨hlt', rfl⟩

/-- The bytes behind a place in the first full buffer. -/
theorem OutOk.pending_drop (h : q.OutOk) (hlt : q.bcounter < q.bn) {k : ℕ}
    (hk : k ≤ q.size q.brdptr) :
    q.pending.drop k = slice q.mem (q.brdptr + SIZEOF_SIZE_T + k) (q.size q.brdptr - k) ++
      q.pending.drop (q.size q.brdptr) := by
  rw [pending, h.full_eq hlt, List.flatten_cons, List.append_assoc,
    List.drop_append_of_le_length (by rwa [buffer_length]),
    List.drop_append_of_le_length (by rw [buffer_length]), buffer, slice_drop, slice_drop,
    Nat.sub_self, slice_zero, List.nil_append]

theorem OutOk.head_le_pending (h : q.OutOk) (hlt : q.bcounter < q.bn) :
    q.size q.brdptr ≤ q.pending.length := by
  rw [pending, h.full_eq hlt, List.flatten_cons, List.append_assoc, List.length_append,
    buffer_length]
  exact Nat.le_add_right _ _

/-- What a pass of `obqWriteTimeout` that moves bytes leaves: they are behind those
written before, and a buffer written to its end is a full one. -/
structure PutOut (q q' : IoBuffersQueue) (moved bytes : List UInt8) (notify : Bool) : Prop where
  ok : q'.OutOk
  pending : q'.pending = q.pending ++ moved
  is_prefix : moved <+: bytes
  some_moved : 0 < moved.length
  full : if notify then ∃ b, q'.obqFull = q.obqFull ++ [b] else q'.obqFull = q.obqFull
  brdptr : q'.brdptr = q.brdptr
  bsize : q'.bsize = q.bsize
  bn : q'.bn = q.bn
  suspended : q'.suspended = q.suspended

/-- Bytes written at the pointer stay inside its buffer. -/
theorem OutOk.splice_outside (h : q.OutOk) {p : ℕ} {l : List UInt8} (hptr : q.ptr = some p)
    (hl : p + l.length ≤ q.top) (i : ℕ)
    (hi : i < q.bwrptr + SIZEOF_SIZE_T ∨ q.bwrptr + q.bsize ≤ i) :
    splice q.mem p l i = q.mem i := by
  obtain ⟨-, hge, -, htop⟩ := h.ptr p hptr
  rcases hi with hi | hi
  · exact splice_of_lt (by omega)
  · exact splice_of_ge (by omega)

/-- They stand behind those the buffer has. -/
theorem OutOk.splice_begun (h : q.OutOk) {p : ℕ} {l : List UInt8} (hptr : q.ptr = some p) :
    slice (splice q.mem p l) (q.bwrptr + SIZEOF_SIZE_T) (p + l.length - (q.bwrptr + SIZEOF_SIZE_T)) =
      q.begun ++ l := by
  obtain ⟨-, hge, -, -⟩ := h.ptr p hptr
  have hp : q.bwrptr + SIZEOF_SIZE_T + (p - (q.bwrptr + SIZEOF_SIZE_T)) = p := by omega
  have happ : slice (splice q.mem (q.bwrptr + SIZEOF_SIZE_T + (p - (q.bwrptr + SIZEOF_SIZE_T))) l)
      (q.bwrptr + SIZEOF_SIZE_T) (p - (q.bwrptr + SIZEOF_SIZE_T) + l.length) =
        slice q.mem (q.bwrptr + SIZEOF_SIZE_T) (p - (q.bwrptr + SIZEOF_SIZE_T)) ++ l :=
    slice_splice_append
  rw [hp] at happ
  rw [begun, hptr, Option.elim_some, ← happ]
  congr 1
  omega

theorem OutOk.put (h : q.OutOk) {p : ℕ} {bytes : List UInt8} (hptr : q.ptr = some p)
    (hn : 0 < bytes.length) :
    ∃ moved notify q', q.obqPut p bytes = some (.moved moved notify q') ∧
      PutOut q q' moved bytes notify ∧ q'.waiting = q.waiting := by
  obtain ⟨hpos, hge, hlt, htop⟩ := h.ptr p hptr
  have hh := h.ring.header
  have hcnt := h.counter
  have hc := q.chunk_pos hlt hn
  obtain ⟨hcn, hct⟩ := q.chunk_le (p := p) (n := bytes.length)
  have hlen : (bytes.take (q.chunk p bytes.length)).length = q.chunk p bytes.length := by
    rw [List.length_take]
    omega
  have hsome : 0 < (bytes.take (q.chunk p bytes.length)).length := by rwa [hlen]
  have hfree : q.bn - q.bcounter < q.bn := by have := h.bn_pos; omega
  have hkeep := h.splice_outside (l := bytes.take (q.chunk p bytes.length)) hptr (by omega)
  have hbegun := h.splice_begun (l := bytes.take (q.chunk p bytes.length)) hptr
  have hfull := h.ring.full_write hfree hkeep
  have hring := h.ring.write hfree hkeep
  rw [hlen] at hbegun
  rw [obqPut]
  by_cases hend : q.top ≤ p + q.chunk p bytes.length
  · have hposted := RingOk.posted (q := { q with
        mem := splice q.mem p (bytes.take (q.chunk p bytes.length))
        ptr := some (p + q.chunk p bytes.length) })
      hring (q.bsize - SIZEOF_SIZE_T) hcnt hpos (by omega) le_rfl
    have hne : q.obqIsFullI = false := by
      rw [obqIsFullI, beq_eq_false_iff_ne]
      omega
    rw [show p + q.chunk p bytes.length - (q.bwrptr + SIZEOF_SIZE_T) = q.bsize - SIZEOF_SIZE_T by
      omega] at hbegun
    have hfull' := hposted.full
    rw [hbegun] at hfull'
    replace hfull' := hfull'.trans (congrArg (· ++ _) hfull)
    rw [if_pos hend, obqPostFullBufferS]
    refine ⟨_, true, _, by rw [if_pos ⟨by omega, le_rfl, hne⟩]; rfl, ⟨hposted.ok, ?_,
      List.take_prefix _ _, hsome, ⟨_, hfull'⟩, rfl, rfl, rfl, rfl⟩, rfl⟩
    rw [pending, hfull', hposted.begun, List.append_nil, List.flatten_append,
      List.flatten_singleton, ← List.append_assoc]
    rfl
  · rw [if_neg hend]
    refine ⟨_, false, _, rfl, ⟨⟨hcnt, hring, ?_⟩, ?_, List.take_prefix _ _, hsome, hfull, rfl,
      rfl, rfl, rfl⟩, rfl⟩
    · intro p' hp'
      obtain rfl := Option.some.inj hp'
      exact ⟨hpos, Nat.le_add_right_of_le hge, Nat.lt_of_not_le hend, htop⟩
    · rw [pending, pending, List.append_assoc, ← hbegun]
      exact congrArg (·.flatten ++ _) hfull

/-- How `obqGetEmptyBufferTimeoutS` goes on. -/
inductive GotEmpty (q : IoBuffersQueue) : Acquired → Prop
  | ready (hcnt : 0 < q.bcounter) : GotEmpty q (.ready { q with
      waiting := .empty
      ptr := some (q.bwrptr + SIZEOF_SIZE_T)
      top := q.bwrptr + q.bsize })
  | reset (hwhy : q.GivenUp) :
      GotEmpty q (.reset { q with waiting := .empty })
  | wait (tq : ThreadsQueue) (htq : tq = .waiting)
      (hwhy : q.waiting = .waiting ∨ q.bcounter = 0 ∧ q.suspended = false) :
      GotEmpty q (.wait { q with waiting := tq })

theorem gotEmpty_look (q : IoBuffersQueue) : GotEmpty q
    (if q.obqIsFullI then
      if q.suspended then .reset { q with waiting := .empty } else .wait { q with waiting := .waiting }
    else .ready { q with
      waiting := .empty
      ptr := some (q.bwrptr + SIZEOF_SIZE_T)
      top := q.bwrptr + q.bsize }) := by
  by_cases he : q.obqIsFullI = true
  · rw [if_pos he]
    rw [obqIsFullI, beq_iff_eq] at he
    by_cases hs : q.suspended = true
    · rw [if_pos hs]
      exact .reset (.suspended hs)
    · rw [if_neg hs]
      exact .wait .waiting rfl (.inr ⟨he, Bool.not_eq_true _ ▸ hs⟩)
  · rw [if_neg he]
    rw [obqIsFullI, beq_iff_eq] at he
    exact .ready (Nat.pos_of_ne_zero he)

theorem gotEmpty (q : IoBuffersQueue) : GotEmpty q q.obqGetEmptyBufferTimeoutS := by
  rw [obqGetEmptyBufferTimeoutS]
  cases hw : q.waiting with
  | empty => exact gotEmpty_look q
  | waiting => exact .wait q.waiting hw (.inl hw)
  | resumed msg =>
    cases msg with
    | MSG_OK => exact gotEmpty_look q
    | MSG_TIMEOUT => exact .reset (.told hw (by decide))
    | MSG_RESET => exact .reset (.told hw (by decide))

/-- What a pass of `obqWriteTimeout` with these bytes to go does. -/
inductive WritePassed (q : IoBuffersQueue) (bytes : List UInt8) : Pass → Prop
  | moved {moved : List UInt8} {notify : Bool} {q' : IoBuffersQueue}
      (h : PutOut q q' moved bytes notify)
      (hw : q'.waiting = .empty ∨ q.ptr ≠ none ∧ q'.waiting = q.waiting) :
      WritePassed q bytes (.moved moved notify q')
  | reset (hptr : q.ptr = none) (hwhy : q.GivenUp) :
      WritePassed q bytes (.reset { q with waiting := .empty })
  | wait (hptr : q.ptr = none) (tq : ThreadsQueue) (htq : tq = .waiting)
      (hwhy : q.waiting = .waiting ∨ q.bcounter = 0 ∧ q.suspended = false) :
      WritePassed q bytes (.wait { q with waiting := tq })

theorem OutOk.writePass (h : q.OutOk) {bytes : List UInt8} (hn : 0 < bytes.length) :
    ∃ r, q.obqWritePass bytes = some r ∧ WritePassed q bytes r := by
  rw [obqWritePass]
  cases hptr : q.ptr with
  | some p =>
    obtain ⟨moved, notify, q', heq, hput, hw⟩ := h.put hptr hn
    exact ⟨_, heq, .moved hput (.inr ⟨by rw [hptr]; exact Option.some_ne_none p, hw⟩)⟩
  | none =>
    have hgot := gotEmpty q
    cases hacq : q.obqGetEmptyBufferTimeoutS with
    | ready q₁ =>
      rw [hacq] at hgot
      cases hgot with
      | ready hcnt =>
        have hok : OutOk { q with
            waiting := .empty
            ptr := some (q.bwrptr + SIZEOF_SIZE_T)
            top := q.bwrptr + q.bsize } := by
          refine ⟨h.counter, h.ring, ?_⟩
          intro p hp
          obtain rfl := Option.some.inj hp
          exact ⟨hcnt, le_rfl, Nat.add_lt_add_left h.ring.header _, rfl⟩
        obtain ⟨moved, notify, q', heq, hput, hw⟩ := hok.put rfl hn
        refine ⟨_, heq, .moved { hput with pending := ?_ } (.inl hw)⟩
        rw [hput.pending, pending, begun, Option.elim_some, Nat.sub_self, slice_zero, pending, begun,
          hptr, Option.elim_none]
        rfl
    | reset q₁ =>
      rw [hacq] at hgot
      cases hgot with
      | reset hwhy => exact ⟨_, rfl, .reset hptr hwhy⟩
    | wait q₁ =>
      rw [hacq] at hgot
      cases hgot with
      | wait tq htq hwhy => exact ⟨_, rfl, .wait hptr tq htq hwhy⟩

/-! ### Queues as they are set up -/

theorem ringOk_objectInit (suspended : Bool) {n : ℕ} (bcounter : ℕ) (hs : 0 < size) (hn : 0 < n) :
    (objectInit suspended size n bcounter).RingOk 0 :=
  ⟨Nat.lt_add_of_pos_left hs, rfl, .empty (Nat.add_pos_left hs _) hn, fun _ => Nat.zero_le _,
    fun b hb => by simp at hb⟩

theorem inOk_ibqObjectInit {suspended : Bool} {n : ℕ} (hs : 0 < size) (hn : 0 < n) :
    (ibqObjectInit suspended size n).InOk :=
  ⟨ringOk_objectInit suspended 0 hs hn, fun p hp => by simp [ibqObjectInit, objectInit] at hp⟩

theorem outOk_obqObjectInit {suspended : Bool} {n : ℕ} (hs : 0 < size) (hn : 0 < n) :
    (obqObjectInit suspended size n).OutOk := by
  refine ⟨le_rfl, ?_, fun p hp => by simp [obqObjectInit, objectInit] at hp⟩
  have hr := ringOk_objectInit suspended n hs hn
  rw [← Nat.sub_self n] at hr
  exact hr

end IoBuffersQueue

end Stmdsp
