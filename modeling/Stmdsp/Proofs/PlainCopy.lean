import Stmdsp.Lib.DoWhile
import Stmdsp.Proofs.BlockCopy

/-! The unrolled loop of `modify` and `midmodify` against a copy of one sample after
the other, for buffers of every size. -/

namespace Stmdsp

/-- Sample by sample, in ascending order. -/
def copySamples (data : Source) (base n : ℕ) (mem : Storage) : Storage :=
  (List.range n).foldl (fun mem i => Function.update mem (base + i) (data mem i)) mem

/-- None of the source's first `r` samples is one of the `r` from `base` on. -/
def Separate (data : Source) (base r : ℕ) : Prop :=
  ∀ mem mem' : Storage, (∀ i, i < base ∨ base + r ≤ i → mem i = mem' i) →
    ∀ j < r, data mem j = data mem' j

/-- `src`, as its distance from `data` in words, and the storage. -/
abbrev CopyState := ℕ × Storage

def copyBody (data : Source) (base : ℕ) (s : CopyState) : CopyState :=
  (s.1 + 8, copyWords data base s.1 s.2)

/-- `src < srcend` -/
def copyTest (srcend : ℕ) (s : CopyState) : Bool := decide (s.1 < srcend)

/-- Samples copied for a size of `s`: whole blocks, and never none. -/
def copiedSize (s : ℕ) : ℕ := max 16 (roundUp16 s)

section Loop

variable {data : Source} {mem mem' : Storage} {base r n w i : ℕ}

theorem copyLoop_doWhile (k : ℕ) :
    DoWhile (copyBody data base) (copyTest (w + 8 * (k + 1))) (k + 1) (w, mem)
      (w + 8 * (k + 1), copyLoop data base (w + 8 * (k + 1)) w mem) := by
  induction k generalizing w mem with
  | zero =>
    rw [copyLoop, if_neg (by omega)]
    exact .last (decide_eq_false (Nat.lt_irrefl _))
  | succ k ih =>
    rw [copyLoop, if_pos (by omega)]
    apply DoWhile.more
    · exact decide_eq_true (show w + 8 < w + 8 * (k + 1 + 1) by omega)
    · rw [show w + 8 * (k + 1 + 1) = w + 8 + 8 * (k + 1) by ring]
      exact ih

theorem copySamples_succ :
    copySamples data base (n + 1) mem =
      Function.update (copySamples data base n mem) (base + n) (data (copySamples data base n mem) n) := by
  rw [copySamples, List.range_succ, List.foldl_append]
  rfl

theorem copySamples_outside (h : i < base ∨ base + n ≤ i) : copySamples data base n mem i = mem i := by
  induction n with
  | zero => rfl
  | succ n ih => rw [copySamples_succ, Function.update_of_ne (by omega), ih (by omega)]

theorem copySamples_inside (hsep : Separate data base r) {j : ℕ} (hn : n ≤ r) (hj : j < n) :
    copySamples data base n mem (base + j) = data mem j := by
  induction n with
  | zero => omega
  | succ n ih =>
    rw [copySamples_succ]
    by_cases hlast : j = n
    · rw [hlast, Function.update_self]
      exact hsep _ _ (fun i hi => copySamples_outside (by omega)) n (by omega)
    · rw [Function.update_of_ne (by omega), ih (by omega) (by omega)]

/-- A block copied behind `n` samples is the next sixteen of them. -/
theorem copyWords_copySamples (hsep : Separate data base r) (hw : 2 * w + 16 ≤ r) :
    copyWords data base w (copySamples data base (2 * w) mem) =
      copySamples data base (2 * w + 16) mem := by
  funext i
  by_cases hblock : base + 2 * w ≤ i ∧ i < base + 2 * w + 16
  · obtain ⟨j, rfl⟩ := Nat.exists_eq_add_of_le hblock.1
    rw [copyWords_inside (by omega), Nat.add_assoc base, copySamples_inside hsep hw (by omega)]
    exact hsep _ _ (fun i hi => copySamples_outside (by omega)) _ (by omega)
  · rw [copyWords_outside (by omega)]
    by_cases hbefore : base ≤ i ∧ i < base + 2 * w
    · obtain ⟨j, rfl⟩ := Nat.exists_eq_add_of_le hbefore.1
      rw [copySamples_inside hsep (by omega) (by omega), copySamples_inside hsep hw (by omega)]
    · rw [copySamples_outside (by omega), copySamples_outside (by omega)]

/-- After `k` iterations the first `16 * k` samples have been copied. -/
theorem DoWhile.copied {k srcend : ℕ} {s' : CopyState} (hsep : Separate data base (16 * k))
    (h : DoWhile (copyBody data base) (copyTest srcend) k (0, mem) s') :
    s'.2 = copySamples data base (16 * k) mem := by
  have hinv := h.invariant
    (I := fun m s => s.1 = 8 * m ∧ s.2 = copySamples data base (16 * m) mem) ⟨rfl, rfl⟩ ?_
  · exact hinv.2
  · rintro m ⟨w, t⟩ hm ⟨rfl, rfl⟩
    have hstep : copyWords data base (8 * m) (copySamples data base (2 * (8 * m)) mem) =
        copySamples data base (2 * (8 * m) + 16) mem := copyWords_copySamples hsep (by omega)
    rw [show 2 * (8 * m) = 16 * m by ring] at hstep
    exact ⟨by simp only [copyBody]; ring, hstep⟩

/-- Whatever the source, nothing else is written. -/
theorem DoWhile.copied_outside {k srcend : ℕ} {s' : CopyState}
    (h : DoWhile (copyBody data base) (copyTest srcend) k (0, mem) s')
    (hi : i < base ∨ base + 16 * k ≤ i) : s'.2 i = mem i := by
  have hinv := h.invariant (I := fun m s => s.1 = 8 * m ∧ s.2 i = mem i) ⟨rfl, rfl⟩ ?_
  · exact hinv.2
  · rintro m ⟨w, t⟩ hm ⟨rfl, ht⟩
    exact ⟨by simp only [copyBody]; ring, (copyWords_outside (by omega)).trans ht⟩

theorem copiedSize_blocks (s : ℕ) : 16 * (copiedSize s / 16) = copiedSize s := by
  unfold copiedSize roundUp16
  omega

/-- The loop for a size of `s`, which may be 0. -/
theorem copyLoop_rounded (s : ℕ) :
    DoWhile (copyBody data base) (copyTest (roundUp16 s / 2)) (copiedSize s / 16) (0, mem)
      (copiedSize s / 2, copyLoop data base (roundUp16 s / 2) 0 mem) := by
  rcases Nat.eq_zero_or_pos s with rfl | hs
  · rw [copyLoop, if_neg (by decide), show copiedSize 0 / 16 = 1 by decide,
      show copiedSize 0 / 2 = 8 by decide]
    have htest : copyTest (roundUp16 0 / 2) (copyBody data base (0, mem)) = false := rfl
    exact .last htest
  · obtain ⟨k, hend, hcount⟩ := roundUp16_blocks hs
    have hsize : copiedSize s = 16 * (k + 1) := by
      unfold copiedSize
      omega
    have hloop : DoWhile (copyBody data base) (copyTest (0 + 8 * (k + 1))) (k + 1) (0, mem)
        (0 + 8 * (k + 1), copyLoop data base (0 + 8 * (k + 1)) 0 mem) := copyLoop_doWhile k
    rw [hend, hsize, Nat.mul_div_cancel_left _ (by omega),
      show 16 * (k + 1) / 2 = 0 + 8 * (k + 1) by omega]
    exact hloop

end Loop

/-- What the loop makes of `mem` for a size of `s`: it ends after as many iterations as
there are blocks, having copied them from a source apart from them sample by sample,
inside the storage. -/
structure CopiesPlainly (data : Source) (base s : ℕ) (mem mem' : Storage) : Prop where
  iterations : DoWhile (copyBody data base) (copyTest (roundUp16 s / 2)) (copiedSize s / 16)
    (0, mem) (copiedSize s / 2, mem')
  whole : 16 * (copiedSize s / 16) = copiedSize s
  plain : Separate data base (copiedSize s) → mem' = copySamples data base (copiedSize s) mem
  inside : Separate data base (copiedSize s) → ∀ j < copiedSize s, mem' (base + j) = data mem j
  outside : ∀ i, i < base ∨ base + copiedSize s ≤ i → mem' i = mem i
  stored : base + copiedSize s ≤ MAX_SAMPLE_BUFFER_SIZE

section Buffer

variable {data : Source} {base s : ℕ} {mem mem' : Storage}

theorem copiesPlainly (h : base + copiedSize s ≤ MAX_SAMPLE_BUFFER_SIZE) :
    CopiesPlainly data base s mem (copyLoop data base (roundUp16 s / 2) 0 mem) := by
  have hloop : DoWhile (copyBody data base) (copyTest (roundUp16 s / 2)) (copiedSize s / 16)
      (0, mem) (copiedSize s / 2, copyLoop data base (roundUp16 s / 2) 0 mem) := copyLoop_rounded s
  have hblocks := copiedSize_blocks s
  have hplain : Separate data base (copiedSize s) →
      copyLoop data base (roundUp16 s / 2) 0 mem = copySamples data base (copiedSize s) mem := by
    intro hsep
    rw [← hblocks] at hsep ⊢
    exact hloop.copied hsep
  refine ⟨hloop, hblocks, hplain, fun hsep j hj => ?_, fun i hi => ?_, h⟩
  · rw [hplain hsep, copySamples_inside hsep le_rfl hj]
  · rw [← hblocks] at hi
    exact hloop.copied_outside hi

theorem separate_const (src : ℕ → Sample) (base r : ℕ) : Separate (fun _ => src) base r :=
  fun _ _ _ _ _ => rfl

/-- Of a source apart from the storage the first samples are read only. -/
theorem CopiesPlainly.congr {src src' : ℕ → Sample} {mem₁ mem₂ : Storage}
    (h : CopiesPlainly (fun _ => src) base s mem mem₁)
    (h' : CopiesPlainly (fun _ => src') base s mem mem₂)
    (hsrc : ∀ j < copiedSize s, src j = src' j) : mem₁ = mem₂ := by
  funext i
  by_cases hi : base ≤ i ∧ i < base + copiedSize s
  · obtain ⟨j, rfl⟩ := Nat.exists_eq_add_of_le hi.1
    rw [h.inside (separate_const src _ _) j (by omega),
      h'.inside (separate_const src' _ _) j (by omega), hsrc j (by omega)]
  · rw [h.outside i (by omega), h'.outside i (by omega)]

variable (b : SampleBuffer)

theorem modify_copiesPlainly (data : Source) (srcsize : ℕ) :
    CopiesPlainly data b.data (min srcsize b.mSize) b.mBuffer (b.modify data srcsize).mBuffer := by
  have hsize : b.modifySize srcsize = roundUp16 (min srcsize b.mSize) := by
    rw [SampleBuffer.modifySize, min_def_lt]
  rw [SampleBuffer.modify, hsize]
  apply copiesPlainly
  have hle := b.size_le
  simp only [MAX_SAMPLE_BUFFER_SIZE, SampleBuffer.data, copiedSize, roundUp16] at *
  omega

theorem midmodify_copiesPlainly (data : Source) (srcsize : ℕ) :
    CopiesPlainly data b.middata (min srcsize (b.mSize / 2)) b.mBuffer
      (b.midmodify data srcsize).mBuffer := by
  have hsize : b.midmodifySize srcsize = roundUp16 (min srcsize (b.mSize / 2)) := by
    rw [SampleBuffer.midmodifySize, min_def_lt]
  rw [SampleBuffer.midmodify, hsize]
  apply copiesPlainly
  have hle := b.size_le
  simp only [MAX_SAMPLE_BUFFER_SIZE, SampleBuffer.middata, SampleBuffer.data, copiedSize,
    roundUp16] at *
  omega

/-- The half of the input buffer from sample `start` on, in memory that holds `mem` from
the buffer's base on. -/
def inputHalf (mem : Storage) (start : ℕ) : Source := fun _ i => mem (start + i)

/-- Both copies are plain copies inside the buffer's storage; and from the same half of an
input buffer of this size, they read inside its storage only. -/
theorem block_copy (data : Source) (srcsize : ℕ) :
    CopiesPlainly data b.data (min srcsize b.mSize) b.mBuffer (b.modify data srcsize).mBuffer ∧
      CopiesPlainly data b.middata (min srcsize (b.mSize / 2)) b.mBuffer
        (b.midmodify data srcsize).mBuffer ∧
      ∀ input : SampleBuffer, input.mSize = b.mSize →
        input.data + copiedSize (min (b.mSize / 2) b.mSize) ≤ MAX_SAMPLE_BUFFER_SIZE ∧
        input.middata + copiedSize (b.mSize / 2) ≤ MAX_SAMPLE_BUFFER_SIZE ∧
        ∀ mem : Storage, (∀ i < MAX_SAMPLE_BUFFER_SIZE, mem i = input.mBuffer i) →
          (b.modify (inputHalf mem input.data) (b.mSize / 2)).mBuffer =
              (b.modify (inputHalf input.mBuffer input.data) (b.mSize / 2)).mBuffer ∧
            (b.midmodify (inputHalf mem input.middata) (b.mSize / 2)).mBuffer =
              (b.midmodify (inputHalf input.mBuffer input.middata) (b.mSize / 2)).mBuffer := by
  refine ⟨modify_copiesPlainly b data srcsize, midmodify_copiesPlainly b data srcsize, ?_⟩
  intro input hsize
  have hfirst := (modify_copiesPlainly b data (b.mSize / 2)).stored
  have hsecond := (midmodify_copiesPlainly b data (b.mSize / 2)).stored
  rw [min_self] at hsecond
  have hmid : b.middata = input.middata := by
    rw [SampleBuffer.middata, SampleBuffer.middata, hsize]
    rfl
  rw [hmid] at hsecond
  refine ⟨hfirst, hsecond, fun mem hmem => ⟨?_, ?_⟩⟩
  · apply (modify_copiesPlainly b _ _).congr (modify_copiesPlainly b _ _)
    exact fun j hj => hmem _ (lt_of_lt_of_le (Nat.add_lt_add_left hj _) hfirst)
  · apply (midmodify_copiesPlainly b _ _).congr (midmodify_copiesPlainly b _ _)
    rw [min_self]
    exact fun j hj => hmem _ (lt_of_lt_of_le (Nat.add_lt_add_left hj _) hsecond)

/-- The largest odd half: its copy ends one sample before the storage does. -/
theorem block_copy_odd_half :
    (⟨fun _ => 0, 8190, none, by decide⟩ : SampleBuffer).middata + copiedSize (8190 / 2) = 8191 ∧
      ((⟨fun _ => 0, 8190, none, by decide⟩ : SampleBuffer).midmodify
        (inputHalf (fun _ => 7) 4095) 4095).mBuffer 8190 = 7 := by
  have hcopy := (block_copy ⟨fun _ => 0, 8190, none, by decide⟩ (inputHalf (fun _ => 7) 4095) 4095).2.1
  have hmid : (⟨fun _ => 0, 8190, none, by decide⟩ : SampleBuffer).middata = 4095 := rfl
  have hlast := hcopy.inside (separate_const _ _ _) 4095 (by decide)
  rw [hmid] at hlast
  exact ⟨by decide, hlast⟩

end Buffer

end Stmdsp
