import Stmdsp.Proofs.Segments

/-! What a loaded program finds in its memory: a segment of file bytes and zeros both
gets its file bytes only, and keeps behind them what a program before it has left. -/

namespace Stmdsp

namespace ELFManager

/-- What a linker makes for the algorithm's memory. -/
structure WellFormed (fb : UInt32) (mem : Memory) : Prop where
  magic : hasMagic mem fb = true
  contained : Contained fb mem
  sizes : ∀ ph ∈ phdrs fb mem, ph.pType = PT_LOAD → ph.pFilesz ≤ ph.pMemsz
  apart : (phdrs fb mem).Pairwise fun p q => p.dest.Apart q.dest
  placed : ∀ ph ∈ phdrs fb mem, ph.pType = PT_LOAD →
    userBase ≤ ph.pVaddr ∧ ph.pVaddr.toNat + ph.pMemsz.toNat ≤ userBase.toNat + userSize

instance wellFormed_decidable (fb : UInt32) (mem : Memory) : Decidable (WellFormed fb mem) :=
  decidable_of_iff (_ ∧ _ ∧ _ ∧ _ ∧ _)
    ⟨fun h => ⟨h.1, h.2.1, h.2.2.1, h.2.2.2.1, h.2.2.2.2⟩, fun h => ⟨h.1, h.2, h.3, h.4, h.5⟩⟩

/-- `ram4` -/
def userWindow : Window := ⟨userBase, userSize⟩

section Loaded

variable {fb : UInt32} {mem mem' : Memory} {ph : Phdr}

theorem phdrs_congr (h : Contained fb mem) (hsame : SameFile fb mem mem') :
    phdrs fb mem' = phdrs fb mem := by
  have hat : ∀ i, phdrAt fb mem' i = phdrAt fb mem i := fun i => by
    rw [phdrAt, readEhdr_congr hsame, phdrAt]
  simp only [phdrs, readEhdr_congr hsame, hat]
  apply List.map_congr_left
  exact fun i hi => h.readPhdr_congr hsame (List.mem_range.mp hi)

theorem WellFormed.congr (h : WellFormed fb mem) (hsame : SameFile fb mem mem') :
    WellFormed fb mem' := by
  have hphdrs := phdrs_congr h.contained hsame
  have hehdr := readEhdr_congr hsame
  refine ⟨by rw [hasMagic_congr hsame, h.magic], ⟨?_, ?_⟩, ?_, ?_, ?_⟩
  · rw [hehdr]
    exact h.contained.table
  · rw [hphdrs]
    exact h.contained.segments
  · rw [hphdrs]
    exact h.sizes
  · rw [hphdrs]
    exact h.apart
  · rw [hphdrs]
    exact h.placed

theorem written_dest (hsize : ph.pType = PT_LOAD → ph.pFilesz ≤ ph.pMemsz) {a : UInt32}
    (ha : ph.written.Covers a) : ph.dest.Covers a := by
  simp only [Phdr.written, Phdr.dest, Window.Covers] at ha ⊢
  split_ifs at ha ⊢ with hload hzero
  · exact ha
  · exact ha.trans_le (UInt32.le_iff_toNat_le.mp (hsize hload))
  · exact absurd ha (Nat.not_lt_zero _)

theorem WellFormed.dest_user (h : WellFormed fb mem) (hph : ph ∈ phdrs fb mem) {a : UInt32}
    (ha : ph.dest.Covers a) : userWindow.Covers a := by
  simp only [Phdr.dest, Window.Covers] at ha
  split_ifs at ha with hload
  · obtain ⟨hlow, hhigh⟩ := h.placed ph hph hload
    have hb : userBase.toNat = 0x10000000 := rfl
    have hs : userSize = 0x8000 := rfl
    have hlt := a.toNat_lt
    have hvaddr := ph.pVaddr.toNat_lt
    simp only [userWindow, Window.Covers, UInt32.toNat_sub, UInt32.le_iff_toNat_le, hb, hs] at *
    omega
  · exact absurd ha (Nat.not_lt_zero _)

theorem WellFormed.offBuffer (h : WellFormed fb mem) (hbuf : (fileWindow fb).Apart userWindow) :
    OffBuffer fb mem :=
  fun ph hph a ha hfile => hbuf a hfile (h.dest_user hph (written_dest (h.sizes ph hph) ha))

theorem WellFormed.written_apart (h : WellFormed fb mem) :
    (phdrs fb mem).Pairwise fun p q => p.written.Apart q.written := by
  refine h.apart.imp_of_mem fun {p q} hp hq hapart a ha ha' => ?_
  exact hapart a (written_dest (h.sizes p hp) ha) (written_dest (h.sizes q hq) ha')

/-- A segment all of file bytes or all of zeros is what the file says. -/
theorem WellFormed.loaded (h : WellFormed fb mem) (hbuf : (fileWindow fb).Apart userWindow)
    (hph : ph ∈ phdrs fb mem) (hload : ph.pType = PT_LOAD)
    (hsize : ph.pFilesz = 0 ∨ ph.pFilesz = ph.pMemsz) : ph.Loaded fb mem (last fb mem).mem := by
  intro k hk
  have hlt := UInt32.lt_iff_toNat_lt.mp hk
  rw [last_mem h.contained (h.offBuffer hbuf)]
  apply Patch.applyAll_inside (patches_apart h.written_apart) (List.mem_map_of_mem hph)
  have hin : ph.written.Covers (ph.pVaddr + k) := by
    rw [Phdr.written, if_pos hload]
    apply Window.covers_add
    split_ifs with hzero
    · exact hlt
    · rwa [hsize.resolve_left hzero]
  rw [Phdr.patch, if_pos hin, Window.add_sub_origin]
  rcases hsize with hzero | hfull
  · rw [if_pos hzero, hzero, if_neg (by simp)]
  · have hne : ph.pFilesz ≠ 0 := fun hzero => by simp [← hfull, hzero] at hlt
    rw [if_neg hne, hfull, if_pos hk]

/-- Behind the file bytes of a segment nothing is written. -/
theorem WellFormed.tail_kept (h : WellFormed fb mem) (hbuf : (fileWindow fb).Apart userWindow)
    (hph : ph ∈ phdrs fb mem) (hload : ph.pType = PT_LOAD) (hzero : ph.pFilesz ≠ 0)
    {k : UInt32} (hfile : ph.pFilesz ≤ k) (hk : k < ph.pMemsz) :
    (last fb mem).mem (ph.pVaddr + k) = mem (ph.pVaddr + k) := by
  rw [last_mem h.contained (h.offBuffer hbuf)]
  apply Patch.applyAll_outside
  rw [List.forall_mem_map]
  intro q hq
  apply if_neg
  intro hin
  have hdest : ph.dest.Covers (ph.pVaddr + k) := by
    rw [Phdr.dest, if_pos hload]
    exact Window.covers_add (UInt32.lt_iff_toNat_lt.mp hk)
  by_cases heq : ph = q
  · rw [← heq, Phdr.written, if_pos hload, if_neg hzero, Window.Covers, Window.add_sub_origin] at hin
    exact absurd hin (not_lt.mpr (UInt32.le_iff_toNat_le.mp hfile))
  · have hsymm : Std.Symm fun p q : Phdr => p.dest.Apart q.dest :=
      ⟨fun _ _ h a ha' ha => h a ha ha'⟩
    exact h.apart.forall hph hq heq _ hdest (written_dest (h.sizes q hq) hin)

end Loaded

/-- Memory that differs in the algorithm's region only. -/
def UserOnly (mem stale : Memory) : Prop := ∀ a, ¬ userWindow.Covers a → stale a = mem a

/-- A program finds its segments as its file describes them, whatever was in memory,
exactly if no segment has both file bytes and zeros: `memcpy` does not fill up to
`p_memsz`. The file buffer is `.bss` of the kernel's RAM. -/
theorem segments_loaded_iff {d : Device} (h : WellFormed d.mFileBuffer d.mem)
    (hbuf : (fileWindow d.mFileBuffer).Apart userWindow) :
    (∀ stale, UserOnly d.mem stale → ∃ loaded d',
        loadFromInternalBuffer.run { d with mem := stale } = .ok loaded d' ∧
        ∀ ph ∈ phdrs d.mFileBuffer d.mem, ph.pType = PT_LOAD →
          ph.Loaded d.mFileBuffer d.mem d'.mem) ↔
      ∀ ph ∈ phdrs d.mFileBuffer d.mem, ph.pType = PT_LOAD →
        ph.pFilesz = 0 ∨ ph.pFilesz = ph.pMemsz := by
  have hsame : ∀ stale, UserOnly d.mem stale → SameFile d.mFileBuffer d.mem stale :=
    fun stale hstale a ha => hstale a (hbuf a ha)
  constructor
  · intro hloaded ph hph hload
    by_contra hsize
    obtain ⟨hzero, hmore⟩ := not_or.mp hsize
    -- What is left behind is a memory full of ones.
    let stale : Memory := fun a => if userWindow.Covers a then 1 else d.mem a
    have hstale : UserOnly d.mem stale := fun a ha => if_neg ha
    obtain ⟨loaded, d', hrun, hsegs⟩ := hloaded stale hstale
    have hw := h.congr (hsame stale hstale)
    rw [loadFromInternalBuffer_run, if_pos hw.magic] at hrun
    obtain ⟨-, rfl⟩ := (Outcome.ok.injEq ..).mp hrun
    have hlt : ph.pFilesz < ph.pMemsz := UInt32.lt_of_le_of_ne (h.sizes ph hph hload) hmore
    have hone : stale (ph.pVaddr + ph.pFilesz) = 1 := by
      apply if_pos
      apply h.dest_user hph
      rw [Phdr.dest, if_pos hload]
      exact Window.covers_add (UInt32.lt_iff_toNat_lt.mp hlt)
    have hph' : ph ∈ phdrs d.mFileBuffer stale := by
      rwa [phdrs_congr h.contained (hsame stale hstale)]
    have hkept := hw.tail_kept hbuf hph' hload hzero (UInt32.le_refl _) hlt
    have hfilled := hsegs ph hph hload _ hlt
    rw [if_neg (UInt32.lt_irrefl _)] at hfilled
    rw [hone] at hkept
    exact absurd (hfilled.symm.trans hkept) (by decide)
  · intro hsizes stale hstale
    have hw := h.congr (hsame stale hstale)
    refine ⟨_, _, by rw [loadFromInternalBuffer_run, if_pos hw.magic], fun ph hph hload k hk => ?_⟩
    have hph' : ph ∈ phdrs d.mFileBuffer stale := by
      rwa [phdrs_congr h.contained (hsame stale hstale)]
    refine (hw.loaded hbuf hph' hload (hsizes ph hph hload) k hk).trans ?_
    split_ifs with hfile
    · exact h.contained.segment_congr (hsame stale hstale) hph hload k hfile
    · rfl

/-- Code and zeros in segments of their own, loaded over a memory full of ones. -/
theorem segments_loaded_iff_swapped :
    ∃ loaded d', loadFromInternalBuffer.run { swapped [textHeader, bssHeader] with
        mem := fun a => if userWindow.Covers a then 1 else (swapped [textHeader, bssHeader]).mem a } =
          .ok loaded d' ∧
      ∀ ph ∈ [textHeader, bssHeader], ph.pType = PT_LOAD →
        ph.Loaded 0x20001000 (swapped [textHeader, bssHeader]).mem d'.mem := by
  have hphdrs : phdrs 0x20001000 (swapped [textHeader, bssHeader]).mem = [textHeader, bssHeader] := by
    decide +kernel
  rw [← hphdrs]
  exact (segments_loaded_iff (d := swapped [textHeader, bssHeader]) (by decide +kernel)
    (by decide)).mpr (by decide +kernel) _ fun a ha => if_neg ha

/-- Four bytes of code and data. -/
def dataImage : List UInt8 :=
  elfImage 0x10000001 [⟨PT_LOAD, 84, 0x10000000, 4, 4⟩] [0x70, 0x47, 0xAA, 0xBB]

/-- Two bytes of code, and two of zeros behind them. -/
def mixedHeader : Phdr := ⟨PT_LOAD, 84, 0x10000000, 2, 4⟩

def mixedImage : List UInt8 := elfImage 0x10000001 [mixedHeader] [0x70, 0x47]

/-- The second algorithm starts with the data of the first where its zeros should be. -/
theorem zeros_stale :
    ∃ tr d, CommRun default tr d ∧
      tr.map Prod.snd = [.host (('E'.toUInt8 :: 88 :: 0 :: dataImage).append
        ('E'.toUInt8 :: 86 :: 0 :: mixedImage)), .comm] ∧
      d.input = 'E'.toUInt8 :: 86 :: 0 :: mixedImage ∧
      (CommunicationManager.threadComm.run d).isOk = true ∧
      let file := uploadOver d.mem (received d 'E'.toUInt8 (86 :: 0 :: mixedImage))
      WellFormed d.mFileBuffer file ∧ mixedHeader ∈ phdrs d.mFileBuffer file ∧
        (CommunicationManager.threadComm.run d).state.mem 0x10000002 = 0xAA ∧
        ¬ mixedHeader.Loaded d.mFileBuffer file (CommunicationManager.threadComm.run d).state.mem := by
  obtain ⟨tr, hr, hacts⟩ := run_of_execActs (powerUp default)
    [.host (('E'.toUInt8 :: 88 :: 0 :: dataImage).append
      ('E'.toUInt8 :: 86 :: 0 :: mixedImage)), .comm] rfl
  exact ⟨tr, _, hr, hacts, rfl, by decide +kernel, by decide +kernel, by decide +kernel,
    by decide +kernel, by decide +kernel⟩

end ELFManager

end Stmdsp
