import Mathlib.Tactic

/-! `samplebuffer.cpp`: a sample buffer, its size, its freshness mark, and the
unrolled block copy the algorithm runner stores its results with. -/

namespace Stmdsp

abbrev Sample := UInt16

def MAX_SAMPLE_BUFFER_SIZE : ℕ := 8192

/-- The memory from a buffer's base address on, by sample index. Indices from
`MAX_SAMPLE_BUFFER_SIZE` on are whatever lies behind the buffer. -/
abbrev Storage := ℕ → Sample

/-- A block of memory read through a pointer: the sample at each index, given the
present contents of the storage being written, which the block may overlap. -/
abbrev Source := Storage → ℕ → Sample

/-- Pointers into a buffer are sample indices from `mBuffer` on. -/
structure SampleBuffer where
  mBuffer : Storage
  mSize : ℕ
  mModified : Option ℕ
  size_le : mSize ≤ MAX_SAMPLE_BUFFER_SIZE

/-- An `int` is the pair of samples it covers, the low half first. -/
abbrev Word := Sample × Sample

def loadWord (mem : ℕ → Sample) (w : ℕ) : Word := (mem (2 * w), mem (2 * w + 1))

def storeWord (mem : Storage) (base w : ℕ) (x : Word) : Storage :=
  Function.update (Function.update mem (base + 2 * w) x.1) (base + 2 * w + 1) x.2

/-- One body of the copy loop at word `w` of both pointers: eight loads, then
eight stores. -/
def copyWords (data : Source) (base w : ℕ) (mem : Storage) : Storage :=
  let src := loadWord (data mem)
  let a := src w
  let b := src (w + 1)
  let c := src (w + 2)
  let d := src (w + 3)
  let e := src (w + 4)
  let f := src (w + 5)
  let g := src (w + 6)
  let h := src (w + 7)
  let mem := storeWord mem base w a
  let mem := storeWord mem base (w + 1) b
  let mem := storeWord mem base (w + 2) c
  let mem := storeWord mem base (w + 3) d
  let mem := storeWord mem base (w + 4) e
  let mem := storeWord mem base (w + 5) f
  let mem := storeWord mem base (w + 6) g
  storeWord mem base (w + 7) h

/-- `do { .. src += 8; dst += 8; } while (src < srcend);` -/
def copyLoop (data : Source) (base srcend w : ℕ) (mem : Storage) : Storage :=
  let mem := copyWords data base w mem
  if w + 8 < srcend then copyLoop data base srcend (w + 8) mem else mem
termination_by srcend - w

/-- `(size + 15) & (~15)` -/
def roundUp16 (size : ℕ) : ℕ := (size + 15) / 16 * 16

namespace SampleBuffer

def data (_ : SampleBuffer) : ℕ := 0

def middata (b : SampleBuffer) : ℕ := b.data + b.mSize / 2

def bytesize (b : SampleBuffer) : ℕ := b.mSize * 2

def clear (b : SampleBuffer) : SampleBuffer :=
  { b with mBuffer := fun i => if i < b.mSize then 2048 else b.mBuffer i }

/-- The sample count `modify` copies for a source of `srcsize` samples. -/
def modifySize (b : SampleBuffer) (srcsize : ℕ) : ℕ :=
  roundUp16 (if srcsize < b.mSize then srcsize else b.mSize)

def midmodifySize (b : SampleBuffer) (srcsize : ℕ) : ℕ :=
  roundUp16 (if srcsize < b.mSize / 2 then srcsize else b.mSize / 2)

def modify (b : SampleBuffer) (data : Source) (srcsize : ℕ) : SampleBuffer :=
  { b with
    mModified := some b.data
    mBuffer := copyLoop data b.data (b.modifySize srcsize / 2) 0 b.mBuffer }

def midmodify (b : SampleBuffer) (data : Source) (srcsize : ℕ) : SampleBuffer :=
  { b with
    mModified := some b.middata
    mBuffer := copyLoop data b.middata (b.midmodifySize srcsize / 2) 0 b.mBuffer }

def setModified (b : SampleBuffer) : SampleBuffer := { b with mModified := some b.data }

def setMidmodified (b : SampleBuffer) : SampleBuffer := { b with mModified := some b.middata }

def setSize (b : SampleBuffer) (size : ℕ) : SampleBuffer :=
  { b with
    mSize := if size < MAX_SAMPLE_BUFFER_SIZE then size else MAX_SAMPLE_BUFFER_SIZE
    size_le := by split <;> omega }

/-- Reads the mark and clears it. -/
def modified (b : SampleBuffer) : Option ℕ × SampleBuffer :=
  (b.mModified, { b with mModified := none })

/-- Replaces the whole storage, as the ADC's DMA and host transfers do. -/
def withStorage (b : SampleBuffer) (mem : Storage) : SampleBuffer := { b with mBuffer := mem }

end SampleBuffer

/-! ### Samples as bytes -/

def loByte (x : Sample) : UInt8 := x.toUInt8
def hiByte (x : Sample) : UInt8 := (x >>> 8).toUInt8
def ofBytes (lo hi : UInt8) : Sample := lo.toUInt16 ||| (hi.toUInt16 <<< 8)

def byteAt (mem : Storage) (i : ℕ) : UInt8 :=
  if i % 2 = 0 then loByte (mem (i / 2)) else hiByte (mem (i / 2))

/-- The `n` bytes from byte offset `off` on. -/
def readBytes (mem : Storage) (off n : ℕ) : List UInt8 :=
  (List.range n).map fun i => byteAt mem (off + i)

/-- Overwrites the bytes from byte offset `off` on; an odd end leaves half of the
last sample as it was. -/
def storeBytes (mem : Storage) (off : ℕ) (bs : List UInt8) : Storage := fun i =>
  let new := fun j => if off ≤ j ∧ j < off + bs.length then bs.getD (j - off) 0 else byteAt mem j
  if off ≤ 2 * i + 1 ∧ 2 * i < off + bs.length then ofBytes (new (2 * i)) (new (2 * i + 1))
  else mem i

end Stmdsp
