import Stmdsp.Lib.Patch
import Stmdsp.Proofs.Images

/-! The loader on a program header table inside the file buffer, with segments placed
off it: the table is the one the buffer held, and each header sets its block of memory
once, to bytes of the file or to zeros. -/

namespace Stmdsp

open Proc

/-- `sizeof(Elf32_Phdr)` -/
def phdrSize : ℕ := 32

namespace Phdr

/-- The block `memset` or `memcpy` sets. -/
def written (ph : Phdr) : Window :=
  ⟨ph.pVaddr,
    if ph.pType = PT_LOAD then
      if ph.pFilesz = 0 then ph.pMemsz.toNat else ph.pFilesz.toNat
    else 0⟩

/-- The block the segment takes in memory. -/
def dest (ph : Phdr) : Window := ⟨ph.pVaddr, if ph.pType = PT_LOAD then ph.pMemsz.toNat else 0⟩

/-- What is set, from a file at `fb`. -/
def patch (fb : UInt32) (file : Memory) (ph : Phdr) : Patch UInt32 UInt8 := fun a =>
  if ph.written.Covers a then
    some (if ph.pFilesz = 0 then 0 else file (fb + ph.pOffset + (a - ph.pVaddr)))
  else none

/-- The segment in memory as the ELF format has it: its file bytes, then zeros. -/
def Loaded (fb : UInt32) (file mem : Memory) (ph : Phdr) : Prop :=
  ∀ k < ph.pMemsz, mem (ph.pVaddr + k) = if k < ph.pFilesz then file (fb + ph.pOffset + k) else 0

instance loaded_decidable (fb : UInt32) (file mem : Memory) (ph : Phdr) :
    Decidable (ph.Loaded fb file mem) :=
  inferInstanceAs (Decidable (∀ k < _, _))

/-- As it is in a file. -/
def bytes (ph : Phdr) : List UInt8 :=
  wordBytes ph.pType ++ wordBytes ph.pOffset ++ wordBytes ph.pVaddr ++ wordBytes 0 ++
    wordBytes ph.pFilesz ++ wordBytes ph.pMemsz ++ List.replicate 8 0

end Phdr

namespace ELFManager

/-- `m_file_buffer` -/
def fileWindow (fb : UInt32) : Window := ⟨fb, MAX_ELF_FILE_SIZE⟩

section Table

variable (fb : UInt32) (mem : Memory)

def phdrAt (i : ℕ) : UInt32 :=
  fb + ((readEhdr mem fb).ePhoff + UInt32.ofNat i * (readEhdr mem fb).ePhentsize.toUInt32)

/-- The program headers the buffer holds. -/
def phdrs : List Phdr :=
  (List.range (readEhdr mem fb).ePhnum.toNat).map fun i => readPhdr mem (phdrAt fb mem i)

/-- The program headers and the file bytes of the segments lie inside the buffer. -/
structure Contained : Prop where
  table : ∀ i < (readEhdr mem fb).ePhnum.toNat,
    (readEhdr mem fb).ePhoff.toNat + i * (readEhdr mem fb).ePhentsize.toNat + phdrSize ≤
      MAX_ELF_FILE_SIZE
  segments : ∀ ph ∈ phdrs fb mem, ph.pType = PT_LOAD → ph.pFilesz ≠ 0 →
    ph.pOffset.toNat + ph.pFilesz.toNat ≤ MAX_ELF_FILE_SIZE

instance contained_decidable : Decidable (Contained fb mem) :=
  decidable_of_iff (_ ∧ _) ⟨fun h => ⟨h.1, h.2⟩, fun h => ⟨h.1, h.2⟩⟩

/-- No segment is placed over the buffer. -/
def OffBuffer : Prop := ∀ ph ∈ phdrs fb mem, ph.written.Apart (fileWindow fb)

instance offBuffer_decidable : Decidable (OffBuffer fb mem) :=
  inferInstanceAs (Decidable (∀ ph ∈ phdrs fb mem, _))

/-- The buffer holds the same file. -/
def SameFile (mem' : Memory) : Prop := ∀ a, (fileWindow fb).Covers a → mem' a = mem a

end Table

section Walk

variable {fb : UInt32} {mem mem' : Memory} {ph : Phdr} {i : ℕ}

/-! ### The table in the buffer -/

theorem covers_file {k a : UInt32} {n : ℕ} (hn : 0 < n) (h : k.toNat + n ≤ MAX_ELF_FILE_SIZE)
    (ha : Window.Covers ⟨fb + k, n⟩ a) : (fileWindow fb).Covers a :=
  (Window.within_add_iff (by decide) hn).mpr h a ha

theorem readEhdr_congr (h : SameFile fb mem mem') : readEhdr mem' fb = readEhdr mem fb := by
  have h24 := read32_congr fun a ha => h a (covers_file (k := 24) (by omega) (by decide) ha)
  have h28 := read32_congr fun a ha => h a (covers_file (k := 28) (by omega) (by decide) ha)
  have h42 := read16_congr fun a ha => h a (covers_file (k := 42) (by omega) (by decide) ha)
  have h44 := read16_congr fun a ha => h a (covers_file (k := 44) (by omega) (by decide) ha)
  simp only [readEhdr, h24, h28, h42, h44]

theorem hasMagic_congr (h : SameFile fb mem mem') : hasMagic mem' fb = hasMagic mem fb := by
  have hat : ∀ k : UInt32, k.toNat < 4 → mem' (fb + k) = mem (fb + k) := by
    intro k hk
    apply h
    simp only [Window.Covers, fileWindow, Window.add_sub_origin, MAX_ELF_FILE_SIZE]
    omega
  have h0 := hat 0 (by decide)
  rw [UInt32.add_zero] at h0
  simp only [hasMagic, h0, hat 1 (by decide), hat 2 (by decide), hat 3 (by decide)]

theorem phdrAt_succ : phdrAt fb mem i + (readEhdr mem fb).ePhentsize.toUInt32 = phdrAt fb mem (i + 1) := by
  rw [phdrAt, phdrAt, UInt32.ofNat_add, UInt32.add_mul, UInt32.add_assoc, UInt32.add_assoc]
  congr 3
  exact (UInt32.one_mul _).symm

/-- Inside the buffer the arithmetic on header addresses does not wrap around. -/
theorem Contained.phdrAt (h : Contained fb mem) (hi : i < (readEhdr mem fb).ePhnum.toNat) :
    ∃ k : UInt32, ELFManager.phdrAt fb mem i = fb + k ∧ k.toNat + phdrSize ≤ MAX_ELF_FILE_SIZE := by
  have htable := h.table i hi
  have hnum := (readEhdr mem fb).ePhnum.toNat_lt
  have hmul : (UInt32.ofNat i * (readEhdr mem fb).ePhentsize.toUInt32).toNat =
      i * (readEhdr mem fb).ePhentsize.toNat := by
    rw [UInt32.toNat_mul, UInt32.toNat_ofNat_of_lt' (by rw [UInt32.size]; omega),
      UInt16.toNat_toUInt32, Nat.mod_eq_of_lt (by simp only [MAX_ELF_FILE_SIZE] at htable; omega)]
  refine ⟨_, rfl, ?_⟩
  rw [UInt32.toNat_add, hmul, Nat.mod_eq_of_lt (by simp only [MAX_ELF_FILE_SIZE] at htable; omega)]
  exact htable

theorem Contained.readPhdr_congr (h : Contained fb mem) (hsame : SameFile fb mem mem')
    (hi : i < (readEhdr mem fb).ePhnum.toNat) :
    readPhdr mem' (ELFManager.phdrAt fb mem i) = readPhdr mem (ELFManager.phdrAt fb mem i) := by
  obtain ⟨k, heq, hk⟩ := h.phdrAt hi
  rw [heq]
  have hmax : MAX_ELF_FILE_SIZE = 16384 := rfl
  rw [phdrSize] at hk
  have hfield : ∀ j : UInt32, j.toNat ≤ 20 → mem'.read32 (fb + k + j) = mem.read32 (fb + k + j) := by
    intro j hj
    have hbase : (fb + k - fb).toNat = k.toNat := by rw [Window.add_sub_origin]
    have hwithin : Window.Within ⟨fb + k + j, 4⟩ fb MAX_ELF_FILE_SIZE :=
      (Window.within_shift_iff (by omega) (by omega) (by omega)).mpr (by omega)
    apply read32_congr
    intro a ha
    exact hsame a (hwithin a ha)
  have h0 := hfield 0 (by decide)
  rw [UInt32.add_zero] at h0
  simp only [readPhdr, h0, hfield 4 (by decide), hfield 8 (by decide), hfield 16 (by decide),
    hfield 20 (by decide)]

theorem drop_phdrs (hi : i < (readEhdr mem fb).ePhnum.toNat) :
    (phdrs fb mem).drop i = readPhdr mem (phdrAt fb mem i) :: (phdrs fb mem).drop (i + 1) := by
  rw [List.drop_eq_getElem_cons (by simpa [phdrs] using hi)]
  simp [phdrs]

theorem readPhdr_mem_phdrs (hi : i < (readEhdr mem fb).ePhnum.toNat) :
    readPhdr mem (phdrAt fb mem i) ∈ phdrs fb mem :=
  List.mem_map_of_mem (List.mem_range.mpr hi)

/-! ### The walk over it -/

theorem memset_apply (mem : Memory) (dst n a : UInt32) (v : UInt8) :
    mem.memset dst v n a = if Window.Covers ⟨dst, n.toNat⟩ a then v else mem a :=
  if_congr UInt32.lt_iff_toNat_lt rfl rfl

theorem memcpy_apply (mem : Memory) (dst src n a : UInt32) :
    mem.memcpy dst src n a =
      if Window.Covers ⟨dst, n.toNat⟩ a then mem (src + (a - dst)) else mem a :=
  if_congr UInt32.lt_iff_toNat_lt rfl rfl

theorem loadSegment_patch (mem : Memory) (ph : Phdr) :
    (loadSegment mem fb ph).1 = (ph.patch fb mem).apply mem := by
  funext a
  by_cases hload : ph.pType = PT_LOAD
  · by_cases hzero : ph.pFilesz = 0
    · simp only [loadSegment, Patch.apply, Phdr.patch, Phdr.written, if_pos hload, if_pos hzero]
      rw [memset_apply]
      split_ifs <;> rfl
    · simp only [loadSegment, Patch.apply, Phdr.patch, Phdr.written, if_pos hload, if_neg hzero]
      rw [memcpy_apply]
      split_ifs <;> rfl
  · have hnone : ph.patch fb mem a = none := by
      simp [Phdr.patch, Phdr.written, hload, Window.Covers]
    simp only [loadSegment, if_neg hload, Patch.apply_of_none hnone]

/-- The loop's memory is the patches of its headers, each from the memory it found. -/
theorem lastFrom_mem (fuel i : ℕ) (c : Cursor) :
    (lastFrom fb fuel i c).mem =
      Patch.applyAll c.mem ((headersFrom fb fuel i c).map fun x => x.header.patch fb x.mem) := by
  induction fuel generalizing i c with
  | zero => rfl
  | succ fuel ih =>
    simp only [lastFrom, headersFrom]
    split_ifs
    · rw [ih, List.map_cons, Patch.applyAll_cons, Cursor.next, loadSegment_patch]
    · rfl

theorem patch_congr (hseg : ph.pType = PT_LOAD →
      ∀ k < ph.pFilesz, mem' (fb + ph.pOffset + k) = mem (fb + ph.pOffset + k)) :
    ph.patch fb mem' = ph.patch fb mem := by
  funext a
  simp only [Phdr.patch]
  split_ifs with hin hzero
  · rfl
  · rw [Phdr.written] at hin
    split_ifs at hin with hload
    · rw [hseg hload _ (UInt32.lt_iff_toNat_lt.mpr hin)]
    · exact absurd hin (Nat.not_lt_zero _)
  · rfl

/-- The bytes of a segment are the file's. -/
theorem Contained.segment_congr (h : Contained fb mem) (hsame : SameFile fb mem mem')
    (hph : ph ∈ phdrs fb mem) (hload : ph.pType = PT_LOAD) :
    ∀ k < ph.pFilesz, mem' (fb + ph.pOffset + k) = mem (fb + ph.pOffset + k) := by
  intro k hk
  have hlt := UInt32.lt_iff_toNat_lt.mp hk
  have hpos : 0 < ph.pFilesz.toNat := by omega
  have hsize : ph.pFilesz ≠ 0 := fun hzero => by simp [hzero] at hpos
  exact hsame _ (covers_file hpos (h.segments ph hph hload hsize) (Window.covers_add hlt))

theorem patch_off_buffer (file : Memory) (h : ph.written.Apart (fileWindow fb)) {a : UInt32}
    (ha : (fileWindow fb).Covers a) : ph.patch fb file a = none :=
  if_neg fun hin => h a hin ha

/-- The headers of the walk are those of the table, and the file stays what it was. -/
theorem headersFrom_table (h : Contained fb mem) (hoff : OffBuffer fb mem) (fuel i : ℕ) (c : Cursor)
    (hsame : SameFile fb mem c.mem) (hphdr : c.phdr = phdrAt fb mem i)
    (hfuel : (readEhdr mem fb).ePhnum.toNat ≤ fuel + i) :
    (headersFrom fb fuel i c).map Cursor.header = (phdrs fb mem).drop i ∧
      ∀ x ∈ headersFrom fb fuel i c, SameFile fb mem x.mem := by
  induction fuel generalizing i c with
  | zero =>
    rw [List.drop_eq_nil_of_le (by simpa [phdrs] using hfuel)]
    exact ⟨rfl, by simp [headersFrom]⟩
  | succ fuel ih =>
    simp only [headersFrom, Cursor.continues, readEhdr_congr hsame, decide_eq_true_eq]
    split_ifs with hi
    swap
    · rw [List.drop_eq_nil_of_le (by simpa [phdrs] using hi)]
      exact ⟨rfl, by simp⟩
    have hheader : c.header = readPhdr mem (phdrAt fb mem i) := by
      rw [Cursor.header, hphdr, h.readPhdr_congr hsame hi]
    have hnext : SameFile fb mem (c.next fb).mem := by
      intro a ha
      have hnone := patch_off_buffer c.mem (hoff _ (readPhdr_mem_phdrs hi)) ha
      simp only [Cursor.next, loadSegment_patch, hheader, Patch.apply_of_none hnone, hsame a ha]
    have hstep : (c.next fb).phdr = phdrAt fb mem (i + 1) := by
      rw [← phdrAt_succ, ← readEhdr_congr hnext, ← hphdr]
      rfl
    obtain ⟨hmap, hfile⟩ := ih (i + 1) (c.next fb) hnext hstep (by omega)
    rw [List.map_cons, hmap, hheader, drop_phdrs hi]
    exact ⟨rfl, List.forall_mem_cons.mpr ⟨hsame, hfile⟩⟩

end Walk

section Load

variable {fb : UInt32} {mem mem' : Memory}

theorem headers_table (h : Contained fb mem) (hoff : OffBuffer fb mem) :
    (headers fb mem).map Cursor.header = phdrs fb mem ∧
      ∀ x ∈ headers fb mem, SameFile fb mem x.mem := by
  have hnum := (readEhdr mem fb).ePhnum.toNat_lt
  have hphdr : (Cursor.first fb mem).phdr = phdrAt fb mem 0 := by simp [Cursor.first, phdrAt]
  exact headersFrom_table h hoff (2 ^ 16) 0 _ (fun _ _ => rfl) hphdr (by omega)

/-- Every header of the table sets its block of memory, in the order of the table. -/
theorem last_mem (h : Contained fb mem) (hoff : OffBuffer fb mem) :
    (last fb mem).mem = Patch.applyAll mem ((phdrs fb mem).map (Phdr.patch fb mem)) := by
  obtain ⟨hmap, hfile⟩ := headers_table h hoff
  rw [last, lastFrom_mem, ← hmap, List.map_map]
  congr 1
  apply List.map_congr_left
  intro x hx
  have hmem : x.header ∈ phdrs fb mem := by
    rw [← hmap]
    exact List.mem_map_of_mem hx
  exact patch_congr (h.segment_congr (hfile x hx) hmem)

theorem last_loaded (h : Contained fb mem) (hoff : OffBuffer fb mem) :
    (last fb mem).loaded = true ↔ ∃ ph ∈ phdrs fb mem, ph.pType = PT_LOAD ∧ ph.pFilesz ≠ 0 := by
  rw [last_loaded_iff, ← (headers_table h hoff).1]
  simp

theorem last_sameFile (h : Contained fb mem) (hoff : OffBuffer fb mem) :
    SameFile fb mem (last fb mem).mem := by
  intro a ha
  rw [last_mem h hoff]
  apply Patch.applyAll_outside
  rw [List.forall_mem_map]
  exact fun ph hph => patch_off_buffer mem (hoff ph hph) ha

theorem patches_apart {ps : List Phdr} {file : Memory}
    (h : ps.Pairwise fun p q => p.written.Apart q.written) :
    (ps.map (Phdr.patch fb file)).Pairwise Patch.Apart := by
  rw [List.pairwise_map]
  apply h.imp
  intro p q hapart a
  by_cases ha : p.written.Covers a
  · exact .inr (if_neg (hapart a ha))
  · exact .inl (if_neg ha)

/-! ### Acceptance, entry and order -/

/-- A second buffer with the same program: its headers in another order perhaps, and the
same bytes where they have their segments. -/
structure Reordered (fb : UInt32) (mem mem' : Memory) : Prop where
  contained : Contained fb mem'
  offBuffer : OffBuffer fb mem'
  magic : hasMagic mem' fb = true
  entry : (readEhdr mem' fb).eEntry = (readEhdr mem fb).eEntry
  headers : (phdrs fb mem').Perm (phdrs fb mem)
  segments : ∀ ph ∈ phdrs fb mem, ph.pType = PT_LOAD →
    ∀ k < ph.pFilesz, mem' (fb + ph.pOffset + k) = mem (fb + ph.pOffset + k)
  outside : ∀ a, ¬ (fileWindow fb).Covers a → mem' a = mem a

theorem Reordered.loaded (h : Contained fb mem) (hoff : OffBuffer fb mem)
    (hr : Reordered fb mem mem') : (last fb mem').loaded = (last fb mem).loaded := by
  rw [Bool.eq_iff_iff, last_loaded h hoff, last_loaded hr.contained hr.offBuffer]
  simp only [hr.headers.mem_iff]

theorem Reordered.memory (h : Contained fb mem) (hoff : OffBuffer fb mem)
    (hr : Reordered fb mem mem')
    (hapart : (phdrs fb mem).Pairwise fun p q => p.written.Apart q.written)
    {a : UInt32} (ha : ¬ (fileWindow fb).Covers a) : (last fb mem').mem a = (last fb mem).mem a := by
  have hsame : (phdrs fb mem').map (Phdr.patch fb mem') = (phdrs fb mem').map (Phdr.patch fb mem) := by
    apply List.map_congr_left
    intro ph hph
    exact patch_congr (hr.segments ph (hr.headers.mem_iff.mp hph))
  have hperm := hr.headers.symm.map (Phdr.patch fb mem)
  rw [last_mem h hoff, last_mem hr.contained hr.offBuffer, hsame,
    ← Patch.applyAll_perm hperm (patches_apart hapart)]
  exact Patch.applyAll_congr (hr.outside a ha)

theorem entry_eq (h : Contained fb mem) (hoff : OffBuffer fb mem) :
    entry fb mem = if hasMagic mem fb && (last fb mem).loaded then (readEhdr mem fb).eEntry else 0 := by
  rw [entry, readEhdr_congr (last_sameFile h hoff)]

/-- A file is accepted exactly if it is an ELF file with a segment to copy, and then its
entry is installed; nothing is written but the segments; and the order of the headers
does not matter. -/
theorem load_contained {d : Device} (h : Contained d.mFileBuffer d.mem)
    (hoff : OffBuffer d.mFileBuffer d.mem) :
    ∃ loaded d', loadFromInternalBuffer.run d = .ok loaded d' ∧
      (loaded = true ↔ hasMagic d.mem d.mFileBuffer = true ∧
        ∃ ph ∈ phdrs d.mFileBuffer d.mem, ph.pType = PT_LOAD ∧ ph.pFilesz ≠ 0) ∧
      d'.mEntry = (if loaded then (readEhdr d.mem d.mFileBuffer).eEntry else 0) ∧
      (∀ a, (hasMagic d.mem d.mFileBuffer = true →
          ∀ ph ∈ phdrs d.mFileBuffer d.mem, ¬ ph.written.Covers a) → d'.mem a = d.mem a) ∧
      ∀ e : Device, e.mFileBuffer = d.mFileBuffer → hasMagic d.mem d.mFileBuffer = true →
        Reordered d.mFileBuffer d.mem e.mem →
        (phdrs d.mFileBuffer d.mem).Pairwise (fun p q => p.written.Apart q.written) →
        ∃ e', loadFromInternalBuffer.run e = .ok loaded e' ∧ e'.mEntry = d'.mEntry ∧
          ∀ a, ¬ (fileWindow d.mFileBuffer).Covers a → e'.mem a = d'.mem a := by
  cases hmagic : hasMagic d.mem d.mFileBuffer with
  | false =>
    refine ⟨false, { d with mEntry := 0 }, ?_, by simp, rfl, fun _ _ => rfl, by simp⟩
    rw [loadFromInternalBuffer_run, hmagic, if_neg Bool.false_ne_true]
  | true =>
    refine ⟨_, _, by rw [loadFromInternalBuffer_run, if_pos hmagic], ?_, ?_, ?_, ?_⟩
    · rw [last_loaded h hoff]
      simp
    · simp only [entry_eq h hoff, hmagic, Bool.true_and]
    · intro a ha
      simp only [last_mem h hoff]
      apply Patch.applyAll_outside
      rw [List.forall_mem_map]
      exact fun ph hph => if_neg (ha rfl ph hph)
    · intro e hfb _ hr hapart
      refine ⟨{ e with
        mem := (last d.mFileBuffer e.mem).mem
        mEntry := entry d.mFileBuffer e.mem }, ?_, ?_, fun a ha => hr.memory h hoff hapart ha⟩
      · rw [loadFromInternalBuffer_run, hfb, if_pos hr.magic, hr.loaded h hoff]
      · simp only [entry_eq h hoff, entry_eq hr.contained hr.offBuffer, hr.loaded h hoff, hr.entry, hmagic,
          hr.magic]

/-- An ELF file of these program headers, from offset 52 on, and the bytes behind them. -/
def elfImage (eEntry : UInt32) (headers : List Phdr) (segments : List UInt8) : List UInt8 :=
  elfHeader ++ List.replicate 20 0 ++ wordBytes eEntry ++ wordBytes 52 ++ List.replicate 10 0 ++
    [32, 0, UInt8.ofNat headers.length, 0] ++ List.replicate 6 0 ++
    headers.flatMap Phdr.bytes ++ segments

/-- "bx lr" and eight bytes of zeros behind it, the headers in the order given. -/
def swapped (headers : List Phdr) : Device :=
  { powerUp default with
    mem := Memory.store (fun _ => 0) 0x20001000 (elfImage 0x10000001 headers [0x70, 0x47]) }

def textHeader : Phdr := ⟨PT_LOAD, 116, 0x10000000, 2, 2⟩
def bssHeader : Phdr := ⟨PT_LOAD, 0, 0x10000004, 0, 8⟩

theorem load_contained_swapped :
    ∃ d e d' e' : Device, d = swapped [textHeader, bssHeader] ∧ e = swapped [bssHeader, textHeader] ∧
      Contained d.mFileBuffer d.mem ∧ OffBuffer d.mFileBuffer d.mem ∧
      Reordered d.mFileBuffer d.mem e.mem ∧
      loadFromInternalBuffer.run d = .ok true d' ∧ loadFromInternalBuffer.run e = .ok true e' ∧
      d'.mEntry = 0x10000001 ∧ e'.mEntry = d'.mEntry ∧
      ∀ a, ¬ (fileWindow d.mFileBuffer).Covers a → e'.mem a = d'.mem a := by
  obtain ⟨loaded, d', hrun, hloaded, hentry, -, horder⟩ :=
    load_contained (d := swapped [textHeader, bssHeader]) (by decide +kernel) (by decide +kernel)
  obtain rfl : loaded = true := hloaded.mpr (by decide +kernel)
  have hreordered : Reordered 0x20001000 (swapped [textHeader, bssHeader]).mem
      (swapped [bssHeader, textHeader]).mem := by
    have hd : phdrs 0x20001000 (swapped [textHeader, bssHeader]).mem = [textHeader, bssHeader] := by
      decide +kernel
    have he : phdrs 0x20001000 (swapped [bssHeader, textHeader]).mem = [bssHeader, textHeader] := by
      decide +kernel
    refine ⟨by decide +kernel, by decide +kernel, by decide +kernel, by decide +kernel, ?_,
      by decide +kernel, fun a ha => ?_⟩
    · rw [hd, he]
      exact List.Perm.swap ..
    have hout : ∀ bytes : List UInt8, bytes.length ≤ MAX_ELF_FILE_SIZE →
        Memory.store (fun _ => 0) 0x20001000 bytes a = 0 := by
      intro bytes hlen
      exact store_outside fun hin => ha (lt_of_lt_of_le hin hlen)
    exact (hout _ (by decide)).trans (hout _ (by decide)).symm
  obtain ⟨e', hrun', hentry', hmem⟩ :=
    horder (swapped [bssHeader, textHeader]) rfl (by decide +kernel) hreordered (by decide +kernel)
  exact ⟨_, _, d', e', rfl, rfl, by decide +kernel, by decide +kernel, hreordered, hrun, hrun',
    hentry.trans (by decide +kernel), hentry', hmem⟩

end Load

end ELFManager

end Stmdsp
