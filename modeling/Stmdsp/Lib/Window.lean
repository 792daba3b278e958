import Mathlib.Tactic

/-! Blocks of byte addresses modulo 2^32, and when one lies inside another. -/

namespace Stmdsp

/-- The `len` addresses from `base` on. -/
structure Window where
  base : UInt32
  len : ℕ
  deriving DecidableEq, Repr

namespace Window

/-- The address is one of the block. -/
def Covers (w : Window) (a : UInt32) : Prop := (a - w.base).toNat < w.len

instance covers_decidable (w : Window) (a : UInt32) : Decidable (w.Covers a) :=
  inferInstanceAs (Decidable (_ < _))

/-- No address is in both. -/
def Apart (w w' : Window) : Prop := ∀ a, w.Covers a → ¬ w'.Covers a

instance apart_symm : Std.Symm Apart where
  symm _ _ h a ha' ha := h a ha ha'

/-- Every address of the block is one of the `size` addresses from `origin` on. -/
def Within (w : Window) (origin : UInt32) (size : ℕ) : Prop :=
  ∀ a, w.Covers a → (a - origin).toNat < size

variable {w : Window} {origin : UInt32} {size : ℕ}

theorem covers_base (h : 0 < w.len) : w.Covers w.base := by
  rwa [Covers, UInt32.sub_self, UInt32.toNat_zero]

theorem add_sub_origin (origin k : UInt32) : origin + k - origin = k := by
  rw [UInt32.add_comm, UInt32.add_sub_cancel]

theorem covers_add {base k : UInt32} {n : ℕ} (h : k.toNat < n) : Covers ⟨base, n⟩ (base + k) := by
  rwa [Covers, add_sub_origin]

theorem toNat_sub_add (a b c : UInt32) :
    (a - c).toNat = ((a - b).toNat + (b - c).toNat) % 2 ^ 32 := by
  simp only [UInt32.toNat_sub]
  have ha := a.toNat_lt
  have hb := b.toNat_lt
  have hc := c.toNat_lt
  omega

/-- Of two blocks that overlap one has the other's first address. -/
theorem apart_iff {w w' : Window} :
    w.Apart w' ↔ w.len = 0 ∨ w'.len = 0 ∨ ¬ w.Covers w'.base ∧ ¬ w'.Covers w.base := by
  constructor
  · intro h
    rcases Nat.eq_zero_or_pos w.len with hw | hw
    · exact .inl hw
    rcases Nat.eq_zero_or_pos w'.len with hw' | hw'
    · exact .inr (.inl hw')
    exact .inr (.inr ⟨fun hc => h _ hc (covers_base hw'), h _ (covers_base hw)⟩)
  · intro h a ha ha'
    have hlt := a.toNat_lt
    have hbase := w.base.toNat_lt
    have hbase' := w'.base.toNat_lt
    simp only [Covers, UInt32.toNat_sub] at h ha ha'
    omega

instance apart_decidable (w w' : Window) : Decidable (w.Apart w') :=
  decidable_of_iff _ apart_iff.symm

/-- Only the block's two ends matter: no block goes round the address space without
leaving a smaller one. -/
theorem within_iff (hsize : size < 2 ^ 32) :
    w.Within origin size ↔ w.len = 0 ∨ (w.base - origin).toNat + w.len ≤ size := by
  constructor
  · intro h
    rcases Nat.eq_zero_or_pos w.len with hzero | hpos
    · exact .inl hzero
    have hbase := h _ (covers_base hpos)
    by_contra hlong
    simp only [not_or, not_le] at hlong
    -- The first address past the end of the outer block would be one of the inner.
    have hend : (UInt32.ofNat size).toNat = size := UInt32.toNat_ofNat_of_lt' hsize
    have hpast : (origin + UInt32.ofNat size - origin).toNat = size := by
      rw [add_sub_origin, hend]
    have hsplit := toNat_sub_add (origin + UInt32.ofNat size) w.base origin
    have hlt := (origin + UInt32.ofNat size - w.base).toNat_lt
    have hin := h (origin + UInt32.ofNat size) (by rw [Covers]; omega)
    omega
  · rintro (hzero | hle) a ha
    · rw [Covers, hzero] at ha
      omega
    · rw [Covers] at ha
      rw [toNat_sub_add a w.base origin]
      omega

/-- A block at a fixed distance from the origin. -/
theorem within_add_iff {k : UInt32} {n : ℕ} (hsize : size < 2 ^ 32) (hn : 0 < n) :
    Within ⟨origin + k, n⟩ origin size ↔ k.toNat + n ≤ size := by
  rw [within_iff hsize, add_sub_origin, or_iff_right (Nat.pos_iff_ne_zero.mp hn)]

/-- The same for a block at a fixed distance from a place known to be inside. -/
theorem within_shift_iff {base k : UInt32} {n : ℕ} (hsize : size + k.toNat < 2 ^ 32)
    (hbase : (base - origin).toNat ≤ size) (hn : 0 < n) :
    Within ⟨base + k, n⟩ origin size ↔ (base - origin).toNat + k.toNat + n ≤ size := by
  have hsplit := toNat_sub_add (base + k) base origin
  rw [add_sub_origin, Nat.mod_eq_of_lt (by omega)] at hsplit
  rw [within_iff (by omega), or_iff_right (Nat.pos_iff_ne_zero.mp hn)]
  simp only [hsplit]
  omega

end Window

theorem forall_lt_iff {n : UInt32} {P : UInt32 → Prop} :
    (∀ k < n, P k) ↔ ∀ k < n.toNat, P (UInt32.ofNat k) := by
  constructor
  · intro h k hk
    have hlt := n.toNat_lt
    apply h
    rwa [UInt32.lt_iff_toNat_lt, UInt32.toNat_ofNat_of_lt' (by rw [UInt32.size]; omega)]
  · intro h k hk
    have hP := h k.toNat (UInt32.lt_iff_toNat_lt.mp hk)
    rwa [UInt32.ofNat_toNat] at hP

instance forall_lt_decidable (n : UInt32) (P : UInt32 → Prop) [DecidablePred P] :
    Decidable (∀ k < n, P k) :=
  decidable_of_iff _ forall_lt_iff.symm

end Stmdsp
