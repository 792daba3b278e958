import Stmdsp.Lib.Blocks
import Stmdsp.Model.Mailbox

/-! ChibiOS buffers queues (`hal_buffers.c`): a ring of fixed-size buffers, each with
the size of its data in front, that an interrupt fills and a thread empties or the
other way round. Pointers are offsets from `buffers`, and `none` is a failed debug
check or assertion, which halts the system. -/

namespace Stmdsp

/-- `sizeof (size_t)` -/
def SIZEOF_SIZE_T : ℕ := 4

def BUFFERS_CHUNKS_SIZE : ℕ := 64

/-- The queue of waiting threads. The command thread alone reads and writes the
stream, so that it holds at most one thread. -/
inductive ThreadsQueue where
  | empty
  | waiting
  /-- Taken off the queue with a message, and not run since. -/
  | resumed (msg : MsgStatus)
  deriving DecidableEq, Repr

/-- `osalThreadDequeueNextI` and, with one thread, `osalThreadDequeueAllI`. -/
def ThreadsQueue.dequeue (msg : MsgStatus) : ThreadsQueue → ThreadsQueue
  | waiting => resumed msg
  | tq => tq

/-- `io_buffers_queue_t`. The bytes of the buffers are `mem`, and `size` is the
`size_t` in front of the buffer at an offset. `top` means something only beside a
`ptr` that is not `NULL`. -/
structure IoBuffersQueue where
  waiting : ThreadsQueue
  suspended : Bool
  bcounter : ℕ
  bwrptr : ℕ
  brdptr : ℕ
  btop : ℕ
  bsize : ℕ
  bn : ℕ
  ptr : Option ℕ
  top : ℕ
  size : ℕ → ℕ
  mem : ℕ → UInt8

/-- How `ibqGetFullBufferTimeoutS` and `obqGetEmptyBufferTimeoutS` with
`TIME_INFINITE` go on when the thread runs. -/
inductive Acquired where
  | ready (q : IoBuffersQueue)
  | reset (q : IoBuffersQueue)
  | wait (q : IoBuffersQueue)

/-- One pass of the loop of `ibqReadTimeout` or `obqWriteTimeout`: the bytes it moves
and whether it calls `notify`, or why it moves none. -/
inductive Pass where
  | moved (bytes : List UInt8) (notify : Bool) (q : IoBuffersQueue)
  | reset (q : IoBuffersQueue)
  | wait (q : IoBuffersQueue)

namespace IoBuffersQueue

/-- `bqSuspendI` -/
def bqSuspendI (q : IoBuffersQueue) : IoBuffersQueue :=
  { q with suspended := true, waiting := q.waiting.dequeue .MSG_RESET }

def bqResumeX (q : IoBuffersQueue) : IoBuffersQueue := { q with suspended := false }

/-- The pointer one buffer further, wrapped at `btop`. -/
def advance (q : IoBuffersQueue) (p : ℕ) : ℕ :=
  if q.btop ≤ p + q.bsize then 0 else p + q.bsize

/-- `ibqObjectInit` and `obqObjectInit`, which differ in `bcounter` alone. -/
def objectInit (suspended : Bool) (size n bcounter : ℕ) : IoBuffersQueue where
  waiting := .empty
  suspended := suspended
  bcounter := bcounter
  bwrptr := 0
  brdptr := 0
  btop := (size + SIZEOF_SIZE_T) * n
  bsize := size + SIZEOF_SIZE_T
  bn := n
  ptr := none
  top := 0
  size := fun _ => 0
  mem := fun _ => 0

def ibqObjectInit (suspended : Bool) (size n : ℕ) : IoBuffersQueue := objectInit suspended size n 0

def obqObjectInit (suspended : Bool) (size n : ℕ) : IoBuffersQueue := objectInit suspended size n n

/-- `ibqResetI` and `obqResetI`. -/
def resetI (q : IoBuffersQueue) (bcounter : ℕ) : IoBuffersQueue :=
  { q with
    bcounter := bcounter
    brdptr := 0
    bwrptr := 0
    ptr := none
    top := 0
    waiting := q.waiting.dequeue .MSG_RESET }

def ibqResetI (q : IoBuffersQueue) : IoBuffersQueue := q.resetI 0

def obqResetI (q : IoBuffersQueue) : IoBuffersQueue := q.resetI q.bn

/-! ### Input queues: `bcounter` counts the full buffers -/

def ibqIsEmptyI (q : IoBuffersQueue) : Bool := q.bcounter == 0

def ibqIsFullI (q : IoBuffersQueue) : Bool := q.bwrptr == q.brdptr && q.bcounter != 0

def ibqGetEmptyBufferI (q : IoBuffersQueue) : Option ℕ :=
  if q.ibqIsFullI then none else some (q.bwrptr + SIZEOF_SIZE_T)

def ibqPostFullBufferI (q : IoBuffersQueue) (size : ℕ) : Option IoBuffersQueue :=
  if 0 < size ∧ size ≤ q.bsize - SIZEOF_SIZE_T ∧ q.ibqIsFullI = false then
    some { q with
      size := Function.update q.size q.bwrptr size
      bcounter := q.bcounter + 1
      bwrptr := q.advance q.bwrptr
      waiting := q.waiting.dequeue .MSG_OK }
  else none

def ibqGetFullBufferTimeoutS (q : IoBuffersQueue) : Acquired :=
  match q.waiting with
  | .waiting => .wait q
  | .resumed .MSG_RESET => .reset { q with waiting := .empty }
  | .resumed .MSG_TIMEOUT => .reset { q with waiting := .empty }
  | _ =>
    if q.ibqIsEmptyI then
      if q.suspended then .reset { q with waiting := .empty } else .wait { q with waiting := .waiting }
    else .ready { q with
      waiting := .empty
      ptr := some (q.brdptr + SIZEOF_SIZE_T)
      top := q.brdptr + SIZEOF_SIZE_T + q.size q.brdptr }

/-- Without the call of `notify` at its end. -/
def ibqReleaseEmptyBufferS (q : IoBuffersQueue) : Option IoBuffersQueue :=
  if q.ibqIsEmptyI then none
  else some { q with
    bcounter := q.bcounter - 1
    brdptr := q.advance q.brdptr
    ptr := none }

/-- How many bytes one pass moves between `ptr` and a buffer of `n` bytes. -/
def chunk (q : IoBuffersQueue) (ptr n : ℕ) : ℕ :=
  let size := if n < q.top - ptr then n else q.top - ptr
  if BUFFERS_CHUNKS_SIZE < size then BUFFERS_CHUNKS_SIZE else size

/-- The part of a pass of `ibqReadTimeout` behind the acquisition of a buffer. -/
def ibqTake (q : IoBuffersQueue) (ptr n : ℕ) : Option Pass :=
  let size := q.chunk ptr n
  let q' := { q with ptr := some (ptr + size) }
  if q.top ≤ ptr + size then q'.ibqReleaseEmptyBufferS.map (.moved (slice q.mem ptr size) true)
  else some (.moved (slice q.mem ptr size) false q')

/-- One pass of the loop of `ibqReadTimeout`, `n` bytes from its end. -/
def ibqReadPass (q : IoBuffersQueue) (n : ℕ) : Option Pass :=
  match q.ptr with
  | some ptr => q.ibqTake ptr n
  | none =>
    match q.ibqGetFullBufferTimeoutS with
    | .ready q => q.ibqTake (q.brdptr + SIZEOF_SIZE_T) n
    | .reset q => some (.reset q)
    | .wait q => some (.wait q)

/-! ### Output queues: `bcounter` counts the empty buffers -/

def obqIsEmptyI (q : IoBuffersQueue) : Bool := q.bwrptr == q.brdptr && q.bcounter != 0

def obqIsFullI (q : IoBuffersQueue) : Bool := q.bcounter == 0

/-- The buffer and its size. -/
def obqGetFullBufferI (q : IoBuffersQueue) : Option (ℕ × ℕ) :=
  if q.obqIsEmptyI then none else some (q.brdptr + SIZEOF_SIZE_T, q.size q.brdptr)

def obqReleaseEmptyBufferI (q : IoBuffersQueue) : Option IoBuffersQueue :=
  if q.obqIsEmptyI then none
  else some { q with
    bcounter := q.bcounter + 1
    brdptr := q.advance q.brdptr
    waiting := q.waiting.dequeue .MSG_OK }

def obqGetEmptyBufferTimeoutS (q : IoBuffersQueue) : Acquired :=
  match q.waiting with
  | .waiting => .wait q
  | .resumed .MSG_RESET => .reset { q with waiting := .empty }
  | .resumed .MSG_TIMEOUT => .reset { q with waiting := .empty }
  | _ =>
    if q.obqIsFullI then
      if q.suspended then .reset { q with waiting := .empty } else .wait { q with waiting := .waiting }
    else .ready { q with
      waiting := .empty
      ptr := some (q.bwrptr + SIZEOF_SIZE_T)
      top := q.bwrptr + q.bsize }

/-- The buffer at `bwrptr` posted with its size, in `obqPostFullBufferS` and
`obqTryFlushI`. -/
def posted (q : IoBuffersQueue) (size : ℕ) : IoBuffersQueue :=
  { q with
    size := Function.update q.size q.bwrptr size
    bcounter := q.bcounter - 1
    bwrptr := q.advance q.bwrptr
    ptr := none }

/-- Without the call of `notify` at its end. -/
def obqPostFullBufferS (q : IoBuffersQueue) (size : ℕ) : Option IoBuffersQueue :=
  if 0 < size ∧ size ≤ q.bsize - SIZEOF_SIZE_T ∧ q.obqIsFullI = false then some (q.posted size)
  else none

/-- The part of a pass of `obqWriteTimeout` behind the acquisition of a buffer. -/
def obqPut (q : IoBuffersQueue) (ptr : ℕ) (bytes : List UInt8) : Option Pass :=
  let size := q.chunk ptr bytes.length
  let moved := bytes.take size
  let q' := { q with mem := splice q.mem ptr moved, ptr := some (ptr + size) }
  if q.top ≤ ptr + size then (q'.obqPostFullBufferS (q.bsize - SIZEOF_SIZE_T)).map (.moved moved true)
  else some (.moved moved false q')

/-- One pass of the loop of `obqWriteTimeout`, with these bytes left to write. -/
def obqWritePass (q : IoBuffersQueue) (bytes : List UInt8) : Option Pass :=
  match q.ptr with
  | some ptr => q.obqPut ptr bytes
  | none =>
    match q.obqGetEmptyBufferTimeoutS with
    | .ready q => q.obqPut (q.bwrptr + SIZEOF_SIZE_T) bytes
    | .reset q => some (.reset q)
    | .wait q => some (.wait q)

def obqTryFlushI (q : IoBuffersQueue) : Bool × IoBuffersQueue :=
  match q.ptr with
  | some ptr =>
    let size := ptr - (q.bwrptr + SIZEOF_SIZE_T)
    if q.obqIsEmptyI && decide (0 < size) then (true, q.posted size) else (false, q)
  | none => (false, q)

end IoBuffersQueue

end Stmdsp
