import Stmdsp.Model.Device

/-! `elfload.cpp`: the loader for uploaded algorithm binaries. The file buffer is
part of the address space the loader reads from and writes to, and all addresses
are taken modulo 2^32. -/

namespace Stmdsp

abbrev Memory := UInt32 → UInt8

namespace Memory

def read16 (mem : Memory) (a : UInt32) : UInt16 :=
  (mem a).toUInt16 ||| ((mem (a + 1)).toUInt16 <<< 8)

def read32 (mem : Memory) (a : UInt32) : UInt32 :=
  (mem a).toUInt32 ||| ((mem (a + 1)).toUInt32 <<< 8) |||
    ((mem (a + 2)).toUInt32 <<< 16) ||| ((mem (a + 3)).toUInt32 <<< 24)

def memset (mem : Memory) (dst : UInt32) (v : UInt8) (n : UInt32) : Memory :=
  fun a => if a - dst < n then v else mem a

def memcpy (mem : Memory) (dst src n : UInt32) : Memory :=
  fun a => if a - dst < n then mem (src + (a - dst)) else mem a

/-- The bytes of a host transfer to `dst`. -/
def store (mem : Memory) (dst : UInt32) (bytes : List UInt8) : Memory :=
  fun a => bytes.getD (a - dst).toNat (mem a)

end Memory

def MAX_ELF_FILE_SIZE : ℕ := 16 * 1024

def PT_LOAD : UInt32 := 1

/-- The fields of `Elf32_Ehdr` the loader uses. -/
structure Ehdr where
  eEntry : UInt32
  ePhoff : UInt32
  ePhentsize : UInt16
  ePhnum : UInt16
  deriving DecidableEq, Repr

def readEhdr (mem : Memory) (a : UInt32) : Ehdr where
  eEntry := mem.read32 (a + 24)
  ePhoff := mem.read32 (a + 28)
  ePhentsize := mem.read16 (a + 42)
  ePhnum := mem.read16 (a + 44)

/-- The fields of `Elf32_Phdr` the loader uses. -/
structure Phdr where
  pType : UInt32
  pOffset : UInt32
  pVaddr : UInt32
  pFilesz : UInt32
  pMemsz : UInt32
  deriving DecidableEq, Repr

def readPhdr (mem : Memory) (a : UInt32) : Phdr where
  pType := mem.read32 a
  pOffset := mem.read32 (a + 4)
  pVaddr := mem.read32 (a + 8)
  pFilesz := mem.read32 (a + 16)
  pMemsz := mem.read32 (a + 20)

namespace ELFManager

def elfHeader : List UInt8 := [0x7F, 0x45, 0x4C, 0x46]

def hasMagic (mem : Memory) (a : UInt32) : Bool :=
  [mem a, mem (a + 1), mem (a + 2), mem (a + 3)] == elfHeader

def unload (d : Device) : Device := { d with mEntry := 0 }

/-- What one program header does to memory, and whether it loads file bytes. -/
def loadSegment (mem : Memory) (elfData : UInt32) (ph : Phdr) : Memory × Bool :=
  if ph.pType = PT_LOAD then
    if ph.pFilesz = 0 then (mem.memset ph.pVaddr 0 ph.pMemsz, false)
    else (mem.memcpy ph.pVaddr (elfData + ph.pOffset) ph.pFilesz, true)
  else (mem, false)

/-- The program header loop from index `i` on, `phdr` being its header's address.
The ELF header is read anew for every test and stride, as the source does. The
index is below `e_phnum` and so below 2^16: `fuel` from there never runs out. -/
def loadSegments : (fuel i : ℕ) → (phdr : UInt32) → (loaded : Bool) → Fw Bool
  | 0, _, _, loaded => pure loaded
  | fuel + 1, i, phdr, loaded => do
    let phnum ← Proc.gets fun d => (readEhdr d.mem d.mFileBuffer).ePhnum
    if i < phnum.toNat then
      let copied ← Proc.act fun d =>
        let (mem, copied) := loadSegment d.mem d.mFileBuffer (readPhdr d.mem phdr)
        (copied, { d with mem := mem })
      let stride ← Proc.gets fun d => (readEhdr d.mem d.mFileBuffer).ePhentsize
      loadSegments fuel (i + 1) (phdr + stride.toUInt32) (loaded || copied)
    else
      pure loaded

def loadFromInternalBuffer : Fw Bool := do
  Proc.modify unload
  let magic ← Proc.gets fun d => hasMagic d.mem d.mFileBuffer
  if magic then
    let phdr ← Proc.gets fun d => d.mFileBuffer + (readEhdr d.mem d.mFileBuffer).ePhoff
    let loaded ← loadSegments (2 ^ 16) 0 phdr false
    if loaded then
      Proc.modify fun d => { d with mEntry := (readEhdr d.mem d.mFileBuffer).eEntry }
    pure loaded
  else
    pure false

end ELFManager

end Stmdsp
