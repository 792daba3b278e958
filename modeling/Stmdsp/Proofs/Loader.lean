import Stmdsp.Model.Footprint
import Stmdsp.Proofs.Handlers

/-! The loader as its footprint describes it: the run walks the headers, changes
nothing outside the blocks it writes, and depends on nothing it does not read. -/

namespace Stmdsp

open Proc

namespace ELFManager

section Walk

variable {fb : UInt32}

theorem loadSegments_run (fuel i : ℕ) (phdr : UInt32) (loaded : Bool) (d : Device) :
    (loadSegments fuel i phdr loaded).run d =
      .ok (lastFrom d.mFileBuffer fuel i ⟨d.mem, phdr, loaded⟩).loaded
        { d with mem := (lastFrom d.mFileBuffer fuel i ⟨d.mem, phdr, loaded⟩).mem } := by
  induction fuel generalizing i phdr loaded d with
  | zero => rfl
  | succ fuel ih =>
    simp only [loadSegments, bind_eq, run_gets_bind, lastFrom, Cursor.continues, decide_eq_true_eq]
    split
    · exact ih (i + 1) _ _ { d with mem := (loadSegment d.mem d.mFileBuffer (readPhdr d.mem phdr)).1 }
    · rfl

theorem loadFromInternalBuffer_run (d : Device) :
    loadFromInternalBuffer.run d =
      if hasMagic d.mem d.mFileBuffer then
        .ok (last d.mFileBuffer d.mem).loaded { d with
          mem := (last d.mFileBuffer d.mem).mem
          mEntry := entry d.mFileBuffer d.mem }
      else .ok false { d with mEntry := 0 } := by
  simp only [loadFromInternalBuffer, bind_eq, run_modify_bind, run_gets_bind, unload]
  split
  · rename_i hmagic
    rw [run_gets_bind, run_bind, loadSegments_run]
    simp only [entry, hmagic, Bool.true_and, last, Cursor.first]
    generalize lastFrom d.mFileBuffer (2 ^ 16) 0
      ⟨d.mem, d.mFileBuffer + (readEhdr d.mem d.mFileBuffer).ePhoff, false⟩ = c
    cases hl : c.loaded with
    | true => rfl
    | false => rfl
  · rfl

/-- The fuel never ends the loop. -/
theorem lastFrom_ends (fuel i : ℕ) (c : Cursor) (h : 2 ^ 16 ≤ fuel + i) :
    ∃ j, (lastFrom fb fuel i c).continues fb j = false := by
  induction fuel generalizing i c with
  | zero =>
    refine ⟨i, ?_⟩
    have hlt := (readEhdr c.mem fb).ePhnum.toNat_lt
    exact decide_eq_false (by simp only [lastFrom]; omega)
  | succ fuel ih =>
    simp only [lastFrom]
    split
    · exact ih (i + 1) _ (by omega)
    · rename_i hstop
      exact ⟨i, by simpa using hstop⟩

/-! ### What a load leaves alone -/

theorem store_outside {mem : Memory} {dst a : UInt32} {bytes : List UInt8}
    (h : ¬ Window.Covers ⟨dst, bytes.length⟩ a) : mem.store dst bytes a = mem a := by
  rw [Memory.store, List.getD_eq_getElem?_getD, List.getElem?_eq_none (not_lt.mp h),
    Option.getD_none]

theorem loadSegment_frame {c : Cursor} {a : UInt32} (h : ¬ (headerWrites c).Covers a) :
    (loadSegment c.mem fb c.header).1 a = c.mem a := by
  simp only [headerWrites, Window.Covers, not_lt] at h
  unfold loadSegment
  split_ifs with hload hzero
  · rw [if_pos hload, if_pos hzero] at h
    exact if_neg (by rw [UInt32.lt_iff_toNat_lt]; omega)
  · rw [if_pos hload, if_neg hzero] at h
    exact if_neg (by rw [UInt32.lt_iff_toNat_lt]; omega)
  · rfl

theorem lastFrom_frame {a : UInt32} (fuel i : ℕ) (c : Cursor)
    (h : ∀ x ∈ headersFrom fb fuel i c, ¬ (headerWrites x).Covers a) :
    (lastFrom fb fuel i c).mem a = c.mem a := by
  induction fuel generalizing i c with
  | zero => rfl
  | succ fuel ih =>
    simp only [headersFrom, lastFrom] at h ⊢
    split_ifs at h ⊢ with hmore
    · rw [ih (i + 1) _ fun x hx => h x (List.mem_cons_of_mem _ hx)]
      exact loadSegment_frame (h c List.mem_cons_self)
    · rfl

/-- A load changes memory in the blocks it writes only. -/
theorem load_frame {d d' : Device} {ok : Bool} {a : UInt32}
    (h : loadFromInternalBuffer.run d = .ok ok d')
    (ha : ∀ w ∈ writes d.mFileBuffer d.mem, ¬ w.Covers a) : d'.mem a = d.mem a := by
  rw [loadFromInternalBuffer_run] at h
  split at h
  · rename_i hmagic
    cases h
    refine lastFrom_frame _ _ _ fun x hx => ha _ ?_
    rw [writes, if_pos hmagic]
    exact List.mem_map_of_mem hx
  · cases h
    rfl

/-! ### What a load depends on -/

theorem read16_congr {m m' : Memory} {p : UInt32}
    (h : ∀ a, Window.Covers ⟨p, 2⟩ a → m a = m' a) : m.read16 p = m'.read16 p := by
  have h0 := h p (Window.covers_base (Nat.succ_pos _))
  have h1 := h (p + 1) (Window.covers_add (by decide))
  simp only [Memory.read16, h0, h1]

theorem read32_congr {m m' : Memory} {p : UInt32}
    (h : ∀ a, Window.Covers ⟨p, 4⟩ a → m a = m' a) : m.read32 p = m'.read32 p := by
  have h0 := h p (Window.covers_base (Nat.succ_pos _))
  have h1 := h (p + 1) (Window.covers_add (by decide))
  have h2 := h (p + 2) (Window.covers_add (by decide))
  have h3 := h (p + 3) (Window.covers_add (by decide))
  simp only [Memory.read32, h0, h1, h2, h3]

/-- Two walks at the same place, over memories that agree on `S`. -/
structure Cursor.Agree (S : UInt32 → Prop) (c c' : Cursor) : Prop where
  phdr : c'.phdr = c.phdr
  loaded : c'.loaded = c.loaded
  mem : ∀ a, S a → c.mem a = c'.mem a

variable {S : UInt32 → Prop} {c c' : Cursor}

/-- What is read lies in `S`. -/
def Covered (S : UInt32 → Prop) (ws : List Window) : Prop := ∀ w ∈ ws, ∀ a, w.Covers a → S a

theorem Covered.append {ws ws' : List Window} :
    Covered S (ws ++ ws') ↔ Covered S ws ∧ Covered S ws' := by
  simp only [Covered, List.mem_append, or_imp, forall_and]

theorem Covered.cons {w : Window} {ws : List Window} :
    Covered S (w :: ws) ↔ (∀ a, w.Covers a → S a) ∧ Covered S ws := by
  simp only [Covered, List.mem_cons, or_imp, forall_and, forall_eq]

theorem Cursor.Agree.loadSegment (h : c.Agree S c') (hr : Covered S (headerReads fb c)) :
    (loadSegment c'.mem fb c'.header).2 = (loadSegment c.mem fb c.header).2 ∧
      ∀ a, S a → (loadSegment c.mem fb c.header).1 a = (loadSegment c'.mem fb c'.header).1 a := by
  have h32 : ∀ {p : UInt32}, (∀ a, Window.Covers ⟨p, 4⟩ a → S a) →
      c'.mem.read32 p = c.mem.read32 p := fun hp =>
    (read32_congr fun a ha => h.mem a (hp a ha)).symm
  simp only [headerReads, Covered.cons] at hr
  obtain ⟨htype, hr⟩ := hr
  have htype' : c'.header.pType = c.header.pType := by
    simp only [Cursor.header, readPhdr, h.phdr, h32 htype]
  unfold ELFManager.loadSegment
  rw [htype']
  by_cases hload : c.header.pType = PT_LOAD
  swap
  · simp only [if_neg hload]
    exact ⟨trivial, h.mem⟩
  simp only [if_pos hload, Covered.cons] at hr ⊢
  obtain ⟨hsize, haddr, hr⟩ := hr
  have hsize' : c'.header.pFilesz = c.header.pFilesz := by
    simp only [Cursor.header, readPhdr, h.phdr, h32 hsize]
  have haddr' : c'.header.pVaddr = c.header.pVaddr := by
    simp only [Cursor.header, readPhdr, h.phdr, h32 haddr]
  rw [hsize', haddr']
  by_cases hzero : c.header.pFilesz = 0
  · simp only [if_pos hzero, Covered.cons] at hr ⊢
    have hlen' : c'.header.pMemsz = c.header.pMemsz := by
      simp only [Cursor.header, readPhdr, h.phdr, h32 hr.1]
    refine ⟨trivial, fun a ha => ?_⟩
    simp only [Memory.memset, hlen', h.mem a ha]
  · simp only [if_neg hzero, Covered.cons] at hr ⊢
    have hoff' : c'.header.pOffset = c.header.pOffset := by
      simp only [Cursor.header, readPhdr, h.phdr, h32 hr.1]
    refine ⟨trivial, fun a ha => ?_⟩
    simp only [Memory.memcpy, hoff']
    split
    · rename_i hin
      refine h.mem _ (hr.2.1 _ ?_)
      rw [Window.Covers, Window.add_sub_origin]
      exact UInt32.lt_iff_toNat_lt.mp hin
    · exact h.mem a ha

/-- The reads of the loop from a header on, without the test that ends it. -/
def readsFrom (fb : UInt32) (fuel i : ℕ) (c : Cursor) : List Window :=
  (headersFrom fb fuel i c).flatMap fun c =>
    ⟨fb + 44, 2⟩ :: headerReads fb c ++ [⟨fb + 42, 2⟩]

theorem Cursor.Agree.lastFrom (fuel i : ℕ) (h : c.Agree S c')
    (hnum : ∀ a, Window.Covers ⟨fb + 44, 2⟩ a → S a) (hr : Covered S (readsFrom fb fuel i c)) :
    (lastFrom fb fuel i c).Agree S (lastFrom fb fuel i c') := by
  induction fuel generalizing i c c' with
  | zero => exact h
  | succ fuel ih =>
    have hcont : c'.continues fb i = c.continues fb i := by
      have hread := read16_congr fun a ha => h.mem a (hnum a ha)
      exact decide_eq_decide.mpr (by simp only [readEhdr, hread])
    simp only [readsFrom, headersFrom] at hr
    simp only [ELFManager.lastFrom, hcont]
    split_ifs at hr ⊢ with hmore
    · rw [List.flatMap_cons, Covered.append, Covered.append, Covered.cons] at hr
      obtain ⟨⟨⟨-, hhead⟩, hstride⟩, hrest⟩ := hr
      obtain ⟨hcopied, hmem⟩ := h.loadSegment hhead
      refine ih (i + 1) ⟨?_, by simp only [Cursor.next, h.loaded, hcopied], hmem⟩ hrest
      have hstep := read16_congr fun a ha => hmem a (hstride _ List.mem_cons_self a ha)
      simp only [Cursor.next, readEhdr, h.phdr, hstep]
    · exact h

/-- The loader accepts both images or none, installs the same entry, and leaves memory
equal wherever it was. -/
structure SameLoad (fb : UInt32) (mem mem' : Memory) : Prop where
  magic : hasMagic mem' fb = hasMagic mem fb
  entry : entry fb mem' = entry fb mem
  loaded : hasMagic mem fb = true → (last fb mem').loaded = (last fb mem).loaded
  memory : hasMagic mem fb = true → ∀ a, mem a = mem' a → (last fb mem).mem a = (last fb mem').mem a

/-- What the loader does not read does not matter to it. -/
theorem reads_suffice {mem mem' : Memory}
    (h : ∀ w ∈ reads fb mem, ∀ a, w.Covers a → mem a = mem' a) : SameLoad fb mem mem' := by
  have hr : Covered (fun a => mem a = mem' a) (reads fb mem) := h
  simp only [reads, Covered.cons] at hr
  have hmagic : hasMagic mem' fb = hasMagic mem fb := by
    simp only [hasMagic]
    rw [hr.1 fb (Window.covers_base (Nat.succ_pos _)), hr.1 (fb + 1) (Window.covers_add (by decide)),
      hr.1 (fb + 2) (Window.covers_add (by decide)), hr.1 (fb + 3) (Window.covers_add (by decide))]
  cases hm : hasMagic mem fb with
  | false => exact ⟨hmagic, by simp [ELFManager.entry, hmagic, hm], by simp [hm], by simp [hm]⟩
  | true =>
    rw [if_pos hm] at hr
    obtain ⟨-, hr⟩ := hr
    simp only [List.cons_append, Covered.cons, Covered.append] at hr
    obtain ⟨hoff, hwalk, hnum, hentry⟩ := hr
    have hfirst : (Cursor.first fb mem).Agree (fun a => mem a = mem' a) (.first fb mem') := by
      refine ⟨?_, rfl, fun _ h => h⟩
      simp only [Cursor.first, readEhdr, read32_congr hoff]
    have hlast : (last fb mem).Agree _ (last fb mem') :=
      hfirst.lastFrom (2 ^ 16) 0 hnum hwalk
    refine ⟨hmagic, ?_, fun _ => hlast.loaded, fun _ => hlast.mem⟩
    simp only [ELFManager.entry, hmagic, hm, hlast.loaded, Bool.true_and]
    split_ifs at hentry ⊢ with hl
    · rw [Covered.cons] at hentry
      simp only [readEhdr, read32_congr fun a ha => hlast.mem a (hentry.1 a ha)]
    · rfl

end Walk

end ELFManager

end Stmdsp
