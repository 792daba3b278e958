import Stmdsp.Model.CommandRun
import Stmdsp.Proofs.Loader

/-! Uploaded images the loader does not check: it reads what was not uploaded when the
fields of a header say so, and writes and enters wherever they say. -/

namespace Stmdsp

open Proc

namespace ELFManager

/-! ### Reads -/

/-- The fields the loader uses of a header, and the bytes of its segment, are among
the first `r` bytes of the file buffer. -/
structure HeaderUploaded (fb : UInt32) (r : ℕ) (c : Cursor) : Prop where
  pType : (c.phdr - fb).toNat + 4 ≤ r
  fields : c.header.pType = PT_LOAD →
    (c.phdr - fb).toNat + (if c.header.pFilesz = 0 then 24 else 20) ≤ r
  segment : c.header.pType = PT_LOAD → c.header.pFilesz ≠ 0 →
    c.header.pOffset.toNat + c.header.pFilesz.toNat ≤ r

/-- The first `r` bytes hold the magic number; and if it is one, the ELF header up to
`e_phnum` and all of the program headers. -/
structure Uploaded (fb : UInt32) (r : ℕ) (mem : Memory) : Prop where
  ident : 4 ≤ r
  ehdr : hasMagic mem fb = true → 46 ≤ r
  phdrs : hasMagic mem fb = true → ∀ c ∈ headers fb mem, HeaderUploaded fb r c

instance headerUploaded_decidable (fb : UInt32) (r : ℕ) (c : Cursor) :
    Decidable (HeaderUploaded fb r c) :=
  decidable_of_iff (_ ∧ _ ∧ _) ⟨fun h => ⟨h.1, h.2.1, h.2.2⟩, fun h => ⟨h.1, h.2, h.3⟩⟩

instance uploaded_decidable (fb : UInt32) (r : ℕ) (mem : Memory) : Decidable (Uploaded fb r mem) :=
  decidable_of_iff (_ ∧ _ ∧ _) ⟨fun h => ⟨h.1, h.2.1, h.2.2⟩, fun h => ⟨h.1, h.2, h.3⟩⟩

def AllWithin (ws : List Window) (origin : UInt32) (size : ℕ) : Prop :=
  ∀ w ∈ ws, w.Within origin size

section Reads

variable {fb : UInt32} {r : ℕ} {c : Cursor} {ws ws' : List Window} {w : Window}

theorem allWithin_cons : AllWithin (w :: ws) fb r ↔ w.Within fb r ∧ AllWithin ws fb r :=
  List.forall_mem_cons

theorem allWithin_append : AllWithin (ws ++ ws') fb r ↔ AllWithin ws fb r ∧ AllWithin ws' fb r :=
  List.forall_mem_append

theorem headerReads_within_iff (hr : r ≤ MAX_ELF_FILE_SIZE) :
    AllWithin (headerReads fb c) fb r ↔ HeaderUploaded fb r c := by
  simp only [MAX_ELF_FILE_SIZE] at hr
  have htype : Window.Within ⟨c.phdr, 4⟩ fb r ↔ (c.phdr - fb).toNat + 4 ≤ r := by
    rw [Window.within_iff (by omega), or_iff_right four_ne_zero]
  rw [headerReads, allWithin_cons, htype]
  by_cases hin : (c.phdr - fb).toNat + 4 ≤ r
  swap
  · exact iff_of_false (fun h => hin h.1) fun h => hin h.pType
  have hfield : ∀ k : UInt32, k.toNat ≤ 20 →
      (Window.Within ⟨c.phdr + k, 4⟩ fb r ↔ (c.phdr - fb).toNat + k.toNat + 4 ≤ r) :=
    fun k hk => Window.within_shift_iff (by omega) (by omega) (by omega)
  by_cases hload : c.header.pType = PT_LOAD
  swap
  · rw [if_neg hload]
    exact ⟨fun h => ⟨h.1, fun hl => absurd hl hload, fun hl => absurd hl hload⟩,
      fun h => ⟨h.pType, by simp [AllWithin]⟩⟩
  rw [if_pos hload, allWithin_cons, allWithin_cons, hfield 16 (by decide), hfield 8 (by decide)]
  have h4 : (4 : UInt32).toNat = 4 := rfl
  have h8 : (8 : UInt32).toNat = 8 := rfl
  have h16 : (16 : UInt32).toNat = 16 := rfl
  have h20 : (20 : UInt32).toNat = 20 := rfl
  by_cases hzero : c.header.pFilesz = 0
  · rw [if_pos hzero, allWithin_cons, hfield 20 (by decide), h8, h16, h20]
    constructor
    · rintro ⟨h, -, -, hend, -⟩
      exact ⟨h, fun _ => by rw [if_pos hzero]; omega, fun _ hne => absurd hzero hne⟩
    · rintro ⟨h, hend, -⟩
      have hend := hend hload
      rw [if_pos hzero] at hend
      exact ⟨h, by omega, by omega, by omega, by simp [AllWithin]⟩
  · have hpos : c.header.pFilesz.toNat ≠ 0 := fun h => hzero (UInt32.toNat_inj.mp h)
    rw [if_neg hzero, allWithin_cons, allWithin_cons, hfield 4 (by decide), h4, h8, h16,
      Window.within_add_iff (by omega) (by omega)]
    constructor
    · rintro ⟨h, hend, -, -, hseg, -⟩
      exact ⟨h, fun _ => by rw [if_neg hzero]; omega, fun _ _ => hseg⟩
    · rintro ⟨h, hend, hseg⟩
      have hend := hend hload
      rw [if_neg hzero] at hend
      exact ⟨h, by omega, by omega, by omega, hseg hload hzero, by simp [AllWithin]⟩

theorem reads_within_iff {mem : Memory} (hr : r ≤ MAX_ELF_FILE_SIZE) :
    AllWithin (reads fb mem) fb r ↔ Uploaded fb r mem := by
  have hsmall : r < 2 ^ 32 := lt_of_le_of_lt hr (by decide)
  have hat : ∀ k : UInt32, ∀ n : ℕ, 0 < n →
      (Window.Within ⟨fb + k, n⟩ fb r ↔ k.toNat + n ≤ r) :=
    fun k n hn => Window.within_add_iff hsmall hn
  have hident : Window.Within ⟨fb, 4⟩ fb r ↔ 4 ≤ r := by
    rw [Window.within_iff hsmall, or_iff_right four_ne_zero]
    simp
  rw [reads, allWithin_cons, hident]
  cases hmagic : hasMagic mem fb with
  | false =>
    simp only [Bool.false_eq_true, if_false]
    exact ⟨fun h => ⟨h.1, by simp [hmagic], by simp [hmagic]⟩,
      fun h => ⟨h.ident, by simp [AllWithin]⟩⟩
  | true =>
    simp only [if_true, List.cons_append, allWithin_cons, allWithin_append]
    have hnum : Window.Within ⟨fb + 44, 2⟩ fb r ↔ 46 ≤ r := hat 44 2 (by omega)
    have hphoff : Window.Within ⟨fb + 28, 4⟩ fb r ↔ 32 ≤ r := hat 28 4 (by omega)
    have hstride : Window.Within ⟨fb + 42, 2⟩ fb r ↔ 44 ≤ r := hat 42 2 (by omega)
    have hentry : Window.Within ⟨fb + 24, 4⟩ fb r ↔ 28 ≤ r := hat 24 4 (by omega)
    rw [hphoff, hnum]
    constructor
    · rintro ⟨h4, -, hwalk, h46, -⟩
      refine ⟨h4, fun _ => h46, fun _ c hc => (headerReads_within_iff hr).mp fun w hw => ?_⟩
      exact hwalk w (List.mem_flatMap.mpr ⟨c, hc, by simp [hw]⟩)
    · rintro ⟨h4, h46, hphdrs⟩
      have h46 := h46 hmagic
      refine ⟨h4, by omega, fun w hw => ?_, h46, ?_⟩
      · obtain ⟨c, hc, hw⟩ := List.mem_flatMap.mp hw
        simp only [List.mem_cons, List.mem_append, List.not_mem_nil, or_false] at hw
        rcases hw with rfl | hw | rfl
        · exact hnum.mpr h46
        · exact (headerReads_within_iff hr).mpr (hphdrs hmagic c hc) w hw
        · exact hstride.mpr (by omega)
      · split_ifs
        · exact allWithin_cons.mpr ⟨hentry.mpr (by omega), by simp [AllWithin]⟩
        · simp [AllWithin]

end Reads

/-! ### Writes -/

/-- The memory of the user algorithm: `ram4`, MPU region 4. -/
def userBase : UInt32 := 0x10000000
def userSize : ℕ := 32 * 1024

/-- The block a header sets ends inside the algorithm's memory, or is empty. -/
def HeaderPlaced (c : Cursor) : Prop :=
  (headerWrites c).len = 0 ∨
    (userBase ≤ c.header.pVaddr ∧
      c.header.pVaddr.toNat + (headerWrites c).len ≤ userBase.toNat + userSize)

instance headerPlaced_decidable (c : Cursor) : Decidable (HeaderPlaced c) :=
  inferInstanceAs (Decidable (_ ∨ _))

/-- All blocks are placed so, and with a segment among them `e_entry` lies there. -/
structure Placed (fb : UInt32) (mem : Memory) : Prop where
  segments : hasMagic mem fb = true → ∀ c ∈ headers fb mem, HeaderPlaced c
  entry : hasMagic mem fb = true → ∀ c ∈ headers fb mem,
    c.header.pType = PT_LOAD → c.header.pFilesz ≠ 0 →
    let e := (readEhdr (last fb mem).mem fb).eEntry
    userBase ≤ e ∧ e.toNat < userBase.toNat + userSize

section Writes

variable {fb : UInt32} {mem : Memory}

theorem headerWrites_within_iff (c : Cursor) :
    (headerWrites c).Within userBase userSize ↔ HeaderPlaced c := by
  rw [Window.within_iff (by decide), HeaderPlaced]
  refine or_congr Iff.rfl ?_
  have hlt := c.header.pVaddr.toNat_lt
  have hb : userBase.toNat = 0x10000000 := rfl
  have hs : userSize = 0x8000 := rfl
  simp only [headerWrites, UInt32.toNat_sub, UInt32.le_iff_toNat_le, hb, hs]
  omega

theorem writes_within_iff (h : hasMagic mem fb = true) :
    AllWithin (writes fb mem) userBase userSize ↔ ∀ c ∈ headers fb mem, HeaderPlaced c := by
  simp only [writes, h, if_true, AllWithin, List.forall_mem_map, headerWrites_within_iff]

theorem lastFrom_loaded_iff (fuel i : ℕ) (c : Cursor) :
    (lastFrom fb fuel i c).loaded = true ↔ c.loaded = true ∨
      ∃ x ∈ headersFrom fb fuel i c, x.header.pType = PT_LOAD ∧ x.header.pFilesz ≠ 0 := by
  induction fuel generalizing i c with
  | zero => simp [lastFrom, headersFrom]
  | succ fuel ih =>
    simp only [lastFrom, headersFrom]
    split_ifs with hmore
    · rw [ih, List.exists_mem_cons_iff, ← or_assoc]
      refine or_congr ?_ Iff.rfl
      simp only [Cursor.next, loadSegment, Bool.or_eq_true]
      split_ifs with hload hzero <;> simp [*]
    · simp

/-- A segment is copied exactly if one of the headers has one. -/
theorem last_loaded_iff :
    (last fb mem).loaded = true ↔
      ∃ c ∈ headers fb mem, c.header.pType = PT_LOAD ∧ c.header.pFilesz ≠ 0 := by
  rw [last, lastFrom_loaded_iff]
  simp [Cursor.first, headers]

theorem and_shiftLeft_one (e m : ℕ) : e &&& m <<< 1 = (e >>> 1 &&& m) <<< 1 := by
  refine Nat.eq_of_testBit_eq fun i => ?_
  cases i with
  | zero => simp
  | succ i => simp [Nat.add_comm]

theorem thumb_clear (e : UInt32) : (e &&& 0xFFFFFFFE).toNat = e.toNat / 2 * 2 := by
  have hlt : e.toNat / 2 < 2 ^ 31 := by have := e.toNat_lt; omega
  rw [UInt32.toNat_and, show (0xFFFFFFFE : UInt32).toNat = (2 ^ 31 - 1) <<< 1 from rfl,
    and_shiftLeft_one, Nat.and_two_pow_sub_one_eq_mod, Nat.shiftRight_eq_div_pow,
    Nat.shiftLeft_eq, pow_one, Nat.mod_eq_of_lt hlt]

/-- Clearing the Thumb bit does not move an address into or out of the algorithm's memory. -/
theorem thumb_within_iff (e : UInt32) :
    ((e &&& 0xFFFFFFFE) - userBase).toNat < userSize ↔
      userBase ≤ e ∧ e.toNat < userBase.toNat + userSize := by
  have hlt := e.toNat_lt
  have hb : userBase.toNat = 0x10000000 := rfl
  have hs : userSize = 0x8000 := rfl
  simp only [UInt32.toNat_sub, UInt32.le_iff_toNat_le, thumb_clear, hb, hs]
  omega

/-- A load writes inside the algorithm's memory and installs an entry there exactly if
the headers place their segments and `e_entry` there: it checks neither. -/
theorem writes_placed_iff (d : Device) :
    (AllWithin (writes d.mFileBuffer d.mem) userBase userSize ∧
      ∀ d', loadFromInternalBuffer.run d = .ok true d' →
        ((d'.mEntry &&& 0xFFFFFFFE) - userBase).toNat < userSize) ↔
      Placed d.mFileBuffer d.mem := by
  rw [loadFromInternalBuffer_run]
  cases hmagic : hasMagic d.mem d.mFileBuffer with
  | false =>
    simp only [writes, hmagic, Bool.false_eq_true, if_false, Outcome.ok.injEq, false_and,
      false_imp_iff]
    exact iff_of_true ⟨by simp [AllWithin], fun _ => trivial⟩ ⟨by simp [hmagic], by simp [hmagic]⟩
  | true =>
    rw [writes_within_iff hmagic, if_pos rfl]
    constructor
    · rintro ⟨hplaced, hentry⟩
      refine ⟨fun _ => hplaced, fun _ c hc hload hsize => ?_⟩
      have hl := last_loaded_iff.mpr ⟨c, hc, hload, hsize⟩
      have he := hentry _ (congrArg (Outcome.ok · _) hl)
      simp only [entry, hmagic, hl, Bool.and_self, if_true] at he
      exact (thumb_within_iff _).mp he
    · rintro ⟨hplaced, hentry⟩
      refine ⟨hplaced hmagic, fun d' hrun => ?_⟩
      obtain ⟨hl, rfl⟩ := (Outcome.ok.injEq ..).mp hrun
      obtain ⟨c, hc, hload, hsize⟩ := last_loaded_iff.mp hl
      simp only [entry, hmagic, hl, Bool.and_self, if_true]
      exact (thumb_within_iff _).mpr (hentry hmagic c hc hload hsize)

end Writes

/-! ### The 'E' command -/

/-- What arrives of the payload of an 'E'. -/
def upload (d : Device) : List UInt8 := (d.input.drop 2).take d.sizeParam

theorem upload_length_le (d : Device) : (upload d).length ≤ d.sizeParam := List.length_take_le _ _

/-- The file buffer of `d` with it, in memory that held `mem`. -/
def uploadOver (mem : Memory) (d : Device) : Memory := Memory.store mem d.mFileBuffer (upload d)

theorem uploadOver_eq {mem mem' : Memory} {d : Device} {a : UInt32}
    (h : (a - d.mFileBuffer).toNat < (upload d).length) :
    uploadOver mem d a = uploadOver mem' d a := by
  simp only [uploadOver, Memory.store, List.getD_eq_getElem?_getD, List.getElem?_eq_getElem h,
    Option.getD_some]

/-- An 'E' that gets past its guards loads what has arrived over what was in the buffer.
The loader reads the former only exactly if the headers say so; and then what was in
the buffer does not matter. -/
theorem reads_uploaded_iff {d : Device} (hidle : d.runStatus = .Idle)
    (htwo : (d.input.take 2).length = 2) (hpos : 0 < d.sizeParam)
    (hfits : d.sizeParam < MAX_ELF_FILE_SIZE) :
    loadAlgorithm.run d =
        (loadPayload (upload d)).run ((d.afterRead 2).afterRead d.sizeParam) ∧
      (AllWithin (reads d.mFileBuffer (uploadOver d.mem d)) d.mFileBuffer (upload d).length ↔
        Uploaded d.mFileBuffer (upload d).length (uploadOver d.mem d)) ∧
      (Uploaded d.mFileBuffer (upload d).length (uploadOver d.mem d) →
        ∀ stale, SameLoad d.mFileBuffer (uploadOver d.mem d) (uploadOver stale d)) := by
  have hr : (upload d).length ≤ MAX_ELF_FILE_SIZE := (upload_length_le d).trans hfits.le
  refine ⟨?_, reads_within_iff hr, fun h stale => ?_⟩
  · rw [loadAlgorithm_run, if_pos hidle, if_pos htwo, if_pos hfits, run_read_bind, if_pos hpos]
    rfl
  · have hin := (reads_within_iff hr).mpr h
    have hagree : ∀ w ∈ reads d.mFileBuffer (uploadOver d.mem d), ∀ a, w.Covers a →
        uploadOver d.mem d a = uploadOver stale d a :=
      fun w hw a ha => uploadOver_eq (hin w hw a ha)
    exact reads_suffice hagree

/-- An ELF file of one program header, at offset 52, and the bytes behind it. -/
def oneSegment (eEntry pVaddr pOffset pFilesz : UInt32) (segment : List UInt8) : List UInt8 :=
  elfHeader ++ List.replicate 20 0 ++ wordBytes eEntry ++ wordBytes 52 ++ List.replicate 10 0 ++
    [32, 0, 1, 0] ++ List.replicate 6 0 ++ wordBytes PT_LOAD ++ wordBytes pOffset ++
    wordBytes pVaddr ++ wordBytes 0 ++ wordBytes pFilesz ++ wordBytes pFilesz ++
    List.replicate 8 0 ++ segment

/-- "bx lr" at the start of the algorithm's memory. -/
def returnImage : List UInt8 := oneSegment 0x10000001 0x10000000 84 2 [0x70, 0x47]

theorem reads_uploaded_iff_return :
    ∃ d : Device, d.input = 86 :: 0 :: returnImage ∧
      Uploaded d.mFileBuffer (upload d).length (uploadOver d.mem d) ∧
      (AllWithin (reads d.mFileBuffer (uploadOver d.mem d)) d.mFileBuffer (upload d).length ↔
        Uploaded d.mFileBuffer (upload d).length (uploadOver d.mem d)) :=
  ⟨{ powerUp default with input := 86 :: 0 :: returnImage }, rfl, by decide +kernel,
    (reads_uploaded_iff rfl rfl (by decide) (by decide)).2.1⟩

/-- A second upload of one byte is accepted for what the first has left in the buffer. -/
theorem reads_stale_upload :
    ∃ tr d, CommRun default tr d ∧
      tr.map Prod.snd =
        [.host (('E'.toUInt8 :: 86 :: 0 :: returnImage).append ['E'.toUInt8, 1, 0, 0x7F]), .comm] ∧
      d.input = ['E'.toUInt8, 1, 0, 0x7F] ∧
      ¬ AllWithin
        (reads d.mFileBuffer (uploadOver d.mem (received d 'E'.toUInt8 [1, 0, 0x7F])))
        d.mFileBuffer (upload (received d 'E'.toUInt8 [1, 0, 0x7F])).length ∧
      (CommunicationManager.threadComm.run d).isOk = true ∧
      (CommunicationManager.threadComm.run d).state.mEntry = 0x10000001 := by
  obtain ⟨tr, hr, hacts⟩ := run_of_execActs (powerUp default)
    [.host (('E'.toUInt8 :: 86 :: 0 :: returnImage).append ['E'.toUInt8, 1, 0, 0x7F]), .comm] rfl
  refine ⟨tr, _, hr, hacts, rfl, fun h => ?_, by decide +kernel, by decide +kernel⟩
  exact absurd ((reads_within_iff (by decide)).mp h).ident (by decide)

/-- Placed in kernel RAM. -/
def kernelImage : List UInt8 := oneSegment 0x20000001 0x20000000 84 2 [0x70, 0x47]

/-- Its segment is written there, and its entry installed. -/
theorem writes_kernel :
    ∃ tr d, CommRun default tr d ∧
      tr.map Prod.snd = [.host ('E'.toUInt8 :: 86 :: 0 :: kernelImage), .comm] ∧
      (powerUp default).mem 0x20000000 = 0 ∧ d.mem 0x20000000 = 0x70 ∧ d.mEntry = 0x20000001 ∧
      ¬ AllWithin (writes d.mFileBuffer (Memory.store (powerUp default).mem d.mFileBuffer kernelImage))
        userBase userSize := by
  obtain ⟨tr, hr, hacts⟩ := run_of_execActs (powerUp default)
    [.host ('E'.toUInt8 :: 86 :: 0 :: kernelImage), .comm] rfl
  refine ⟨tr, _, hr, hacts, rfl, by decide +kernel, by decide +kernel, fun h => ?_⟩
  exact absurd ((writes_within_iff (by decide +kernel)).mp h) (by decide +kernel)

end ELFManager

end Stmdsp
