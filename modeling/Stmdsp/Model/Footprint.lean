import Stmdsp.Lib.Window
import Stmdsp.Model.Elfload

/-! What `loadFromInternalBuffer` reads and writes: its program header loop as a walk
over the headers, with the bytes it takes from each and the block each sets. -/

namespace Stmdsp

namespace ELFManager

/-- The loop between two program headers: memory, the next header's address, and
whether a segment has been copied. -/
structure Cursor where
  mem : Memory
  phdr : UInt32
  loaded : Bool

def Cursor.header (c : Cursor) : Phdr := readPhdr c.mem c.phdr

section Walk

variable (elfData : UInt32)

def Cursor.next (c : Cursor) : Cursor :=
  let seg := loadSegment c.mem elfData c.header
  ⟨seg.1, c.phdr + (readEhdr seg.1 elfData).ePhentsize.toUInt32, c.loaded || seg.2⟩

def Cursor.first (mem : Memory) : Cursor := ⟨mem, elfData + (readEhdr mem elfData).ePhoff, false⟩

/-- `i < ehdr->e_phnum` -/
def Cursor.continues (c : Cursor) (i : ℕ) : Bool :=
  decide (i < (readEhdr c.mem elfData).ePhnum.toNat)

/-- The headers from index `i` on, each with the memory as those before it leave it. -/
def headersFrom : (fuel i : ℕ) → Cursor → List Cursor
  | 0, _, _ => []
  | fuel + 1, i, c => if c.continues elfData i then c :: headersFrom fuel (i + 1) (c.next elfData) else []

/-- Where the loop ends. -/
def lastFrom : (fuel i : ℕ) → Cursor → Cursor
  | 0, _, c => c
  | fuel + 1, i, c => if c.continues elfData i then lastFrom fuel (i + 1) (c.next elfData) else c

def headers (mem : Memory) : List Cursor := headersFrom elfData (2 ^ 16) 0 (.first elfData mem)

def last (mem : Memory) : Cursor := lastFrom elfData (2 ^ 16) 0 (.first elfData mem)

end Walk

/-! ### Footprint -/

/-- What the loop reads of a header: `p_type`, then `p_filesz` and `p_vaddr`, and
`p_memsz` or `p_offset` with the segment's bytes. -/
def headerReads (elfData : UInt32) (c : Cursor) : List Window :=
  ⟨c.phdr, 4⟩ ::
    if c.header.pType = PT_LOAD then
      ⟨c.phdr + 16, 4⟩ :: ⟨c.phdr + 8, 4⟩ ::
        if c.header.pFilesz = 0 then [⟨c.phdr + 20, 4⟩]
        else [⟨c.phdr + 4, 4⟩, ⟨elfData + c.header.pOffset, c.header.pFilesz.toNat⟩]
    else []

/-- Everything the loader reads: `e_ident`, `e_phoff`, then for each header
`e_phnum`, the header's part and `e_phentsize`, `e_phnum` once more to end the loop,
and `e_entry` if a segment was copied. -/
def reads (elfData : UInt32) (mem : Memory) : List Window :=
  ⟨elfData, 4⟩ ::
    if hasMagic mem elfData then
      ⟨elfData + 28, 4⟩ ::
        ((headers elfData mem).flatMap fun c =>
          ⟨elfData + 44, 2⟩ :: headerReads elfData c ++ [⟨elfData + 42, 2⟩]) ++
        ⟨elfData + 44, 2⟩ ::
          if (last elfData mem).loaded then [⟨elfData + 24, 4⟩] else []
    else []

/-- The block a header sets: by `memset` when its segment has no file bytes. -/
def headerWrites (c : Cursor) : Window :=
  ⟨c.header.pVaddr,
    if c.header.pType = PT_LOAD then
      if c.header.pFilesz = 0 then c.header.pMemsz.toNat else c.header.pFilesz.toNat
    else 0⟩

def writes (elfData : UInt32) (mem : Memory) : List Window :=
  if hasMagic mem elfData then (headers elfData mem).map headerWrites else []

/-- The `m_entry` a load installs, 0 when it returns false. -/
def entry (elfData : UInt32) (mem : Memory) : UInt32 :=
  if hasMagic mem elfData && (last elfData mem).loaded then
    (readEhdr (last elfData mem).mem elfData).eEntry
  else 0

end ELFManager

end Stmdsp
