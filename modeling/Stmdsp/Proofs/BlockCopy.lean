import Stmdsp.Model.SampleBuffer

/-! What `modify` and `midmodify` write. The copy moves whole blocks of sixteen
samples, so it stores the requested samples and, unless their count is a multiple
of sixteen, some behind them. -/

namespace Stmdsp

variable {data : Source} {src : ℕ → Sample} {mem : Storage} {base w i : ℕ}

theorem storeWord_apply (x : Word) :
    storeWord mem base w x i =
      if i = base + 2 * w + 1 then x.2 else if i = base + 2 * w then x.1 else mem i := by
  simp only [storeWord, Function.update_apply]

theorem copyWords_outside (h : i < base + 2 * w ∨ base + 2 * w + 16 ≤ i) :
    copyWords data base w mem i = mem i := by
  simp only [copyWords, storeWord_apply]
  repeat rw [if_neg (by omega)]

/-- All loads of a block come before its stores, so it copies what the source
held before it, even where the two overlap. -/
theorem copyWords_inside {j : ℕ} (hj : j < 16) :
    copyWords data base w mem (base + 2 * w + j) = data mem (2 * w + j) := by
  simp only [copyWords, storeWord_apply, loadWord]
  interval_cases j <;> simp [Nat.mul_add, Nat.add_assoc]

/-- The loop over `k + 1` blocks leaves everything outside of them as it was. -/
theorem copyLoop_outside (k : ℕ) (h : i < base + 2 * w ∨ base + 2 * w + 16 * (k + 1) ≤ i) :
    copyLoop data base (w + 8 * (k + 1)) w mem i = mem i := by
  induction k generalizing w mem with
  | zero =>
    rw [copyLoop, if_neg (by omega)]
    exact copyWords_outside (by omega)
  | succ k ih =>
    rw [copyLoop, if_pos (by omega), show w + 8 * (k + 1 + 1) = w + 8 + 8 * (k + 1) by ring,
      ih (by omega)]
    exact copyWords_outside (by omega)

/-- From a source the copy does not write to, it stores the source's samples. -/
theorem copyLoop_inside (k : ℕ) (h : base + 2 * w ≤ i) (h' : i < base + 2 * w + 16 * (k + 1)) :
    copyLoop (fun _ => src) base (w + 8 * (k + 1)) w mem i = src (i - base) := by
  induction k generalizing w mem with
  | zero =>
    obtain ⟨j, rfl⟩ := Nat.exists_eq_add_of_le h
    rw [copyLoop, if_neg (by omega), copyWords_inside (by omega)]
    congr 1
    omega
  | succ k ih =>
    rw [copyLoop, if_pos (by omega), show w + 8 * (k + 1 + 1) = w + 8 + 8 * (k + 1) by ring]
    by_cases hi : i < base + 2 * w + 16
    · obtain ⟨j, rfl⟩ := Nat.exists_eq_add_of_le h
      rw [copyLoop_outside k (by omega), copyWords_inside (by omega)]
      congr 1
      omega
    · exact ih (by omega) (by omega)

/-! ### The two halves -/

/-- The blocks a copy of `n` samples takes. -/
theorem roundUp16_blocks {n : ℕ} (h : 0 < n) :
    ∃ k, roundUp16 n / 2 = 0 + 8 * (k + 1) ∧ 16 * (k + 1) = roundUp16 n := by
  refine ⟨(n + 15) / 16 - 1, ?_⟩
  unfold roundUp16
  omega

theorem le_roundUp16 (n : ℕ) : n ≤ roundUp16 n := by
  unfold roundUp16
  omega

theorem roundUp16_eq_iff {n : ℕ} : roundUp16 n = n ↔ 16 ∣ n := by
  unfold roundUp16
  omega

section Halves

variable {b : SampleBuffer} {n : ℕ}

theorem modifySize_half (hn : 0 < n) (hb : b.mSize = 2 * n) : b.modifySize n = roundUp16 n := by
  rw [SampleBuffer.modifySize, if_pos (by omega)]

theorem midmodifySize_half (hb : b.mSize = 2 * n) : b.midmodifySize n = roundUp16 n := by
  rw [SampleBuffer.midmodifySize, if_neg (by omega), hb]
  congr 1
  omega

theorem middata_half (hb : b.mSize = 2 * n) : b.middata = n := by
  rw [SampleBuffer.middata, SampleBuffer.data, hb]
  omega

theorem modify_outside (hn : 0 < n) (hb : b.mSize = 2 * n) (hi : roundUp16 n ≤ i) :
    (b.modify data n).mBuffer i = b.mBuffer i := by
  obtain ⟨k, hk, hk'⟩ := roundUp16_blocks hn
  simp only [SampleBuffer.modify, modifySize_half hn hb, hk, SampleBuffer.data]
  exact copyLoop_outside k (by omega)

theorem modify_inside (hn : 0 < n) (hb : b.mSize = 2 * n) (hi : i < roundUp16 n) :
    (b.modify (fun _ => src) n).mBuffer i = src i := by
  obtain ⟨k, hk, hk'⟩ := roundUp16_blocks hn
  simp only [SampleBuffer.modify, modifySize_half hn hb, hk, SampleBuffer.data]
  rw [copyLoop_inside k (by omega) (by omega)]
  rfl

theorem midmodify_outside (hn : 0 < n) (hb : b.mSize = 2 * n) (hi : i < n ∨ n + roundUp16 n ≤ i) :
    (b.midmodify data n).mBuffer i = b.mBuffer i := by
  obtain ⟨k, hk, hk'⟩ := roundUp16_blocks hn
  simp only [SampleBuffer.midmodify, midmodifySize_half hb, hk, middata_half hb]
  exact copyLoop_outside k (by omega)

theorem midmodify_inside (hn : 0 < n) (hb : b.mSize = 2 * n) (hi : n ≤ i)
    (hi' : i < n + roundUp16 n) : (b.midmodify (fun _ => src) n).mBuffer i = src (i - n) := by
  obtain ⟨k, hk, hk'⟩ := roundUp16_blocks hn
  simp only [SampleBuffer.midmodify, midmodifySize_half hb, hk, middata_half hb]
  exact copyLoop_inside k (by omega) (by omega)

end Halves

/-- Storing the first half leaves everything from the second half on alone. -/
def FirstHalfKept (b : SampleBuffer) (data : Source) (n : ℕ) : Prop :=
  ∀ i, n ≤ i → (b.modify data n).mBuffer i = b.mBuffer i

/-- Storing the second half leaves the first half and everything behind the
configured size alone. -/
def SecondHalfKept (b : SampleBuffer) (data : Source) (n : ℕ) : Prop :=
  ∀ i, i < n ∨ 2 * n ≤ i → (b.midmodify data n).mBuffer i = b.mBuffer i

theorem sample_add_one_ne (x : Sample) : x + 1 ≠ x := by
  intro h
  have := congrArg UInt16.toNat h
  rw [UInt16.toNat_add, UInt16.toNat_one] at this
  have := x.toNat_lt
  omega

section Spill

variable {b : SampleBuffer} {n : ℕ}

theorem lt_roundUp16 (h : ¬ 16 ∣ n) : n < roundUp16 n :=
  lt_of_le_of_ne (le_roundUp16 n) fun he => h (roundUp16_eq_iff.mp he.symm)

/-- The source that differs from the storage everywhere shows the spill. -/
theorem firstHalfKept_iff (hn : 0 < n) (hb : b.mSize = 2 * n) :
    (∀ data, FirstHalfKept b data n) ↔ 16 ∣ n := by
  constructor
  · intro h
    by_contra hdvd
    have hkept := h (fun _ j => b.mBuffer j + 1) n le_rfl
    rw [modify_inside hn hb (lt_roundUp16 hdvd)] at hkept
    exact sample_add_one_ne _ hkept
  · intro hdvd data i hi
    rw [← roundUp16_eq_iff.mpr hdvd] at hi
    exact modify_outside hn hb hi

theorem secondHalfKept_iff (hn : 0 < n) (hb : b.mSize = 2 * n) :
    (∀ data, SecondHalfKept b data n) ↔ 16 ∣ n := by
  constructor
  · intro h
    by_contra hdvd
    have hlt := lt_roundUp16 hdvd
    have hkept := h (fun _ j => b.mBuffer (n + j) + 1) (2 * n) (.inr le_rfl)
    rw [midmodify_inside hn hb (by omega) (by omega), Nat.add_sub_cancel' (by omega)] at hkept
    exact sample_add_one_ne _ hkept
  · intro hdvd data i hi
    have heq := roundUp16_eq_iff.mpr hdvd
    exact midmodify_outside hn hb (by omega)

end Spill

/-- For a half size and any contents of the buffer: no store of either half
touches the rest, whatever it copies from, exactly if the size is a multiple of
sixteen. -/
theorem halves_kept_iff {n : ℕ} (hn : 1 ≤ n) (b : SampleBuffer) (hb : b.mSize = 2 * n) :
    (∀ data : Source, FirstHalfKept b data n ∧ SecondHalfKept b data n) ↔ 16 ∣ n := by
  rw [forall_and, firstHalfKept_iff hn hb, secondHalfKept_iff hn hb, and_self]

/-- A half of sixteen samples. -/
theorem halves_kept_iff_sixteen :
    (∀ data : Source,
      FirstHalfKept ⟨fun _ => 0, 32, none, by decide⟩ data 16 ∧
        SecondHalfKept ⟨fun _ => 0, 32, none, by decide⟩ data 16) ↔ 16 ∣ 16 :=
  halves_kept_iff (by decide) _ rfl

/-- With halves of one sample, storing a block of ones as the first half sets the
second half, and as the second half the memory behind the buffer. -/
theorem halves_spill :
    ¬ FirstHalfKept ⟨fun _ => 0, 2, none, by decide⟩ (fun _ _ => 1) 1 ∧
      ¬ SecondHalfKept ⟨fun _ => 0, 2, none, by decide⟩ (fun _ _ => 1) 1 := by
  constructor
  · intro h
    have hkept := h 1 le_rfl
    rw [modify_inside (by decide) rfl (by decide)] at hkept
    exact absurd hkept (by decide)
  · intro h
    have hkept := h 2 (.inr le_rfl)
    rw [midmodify_inside (by decide) rfl (by decide) (by decide)] at hkept
    exact absurd hkept (by decide)

end Stmdsp
