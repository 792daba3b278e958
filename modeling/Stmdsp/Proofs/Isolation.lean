import Stmdsp.Lib.Patch
import Stmdsp.Model.Protection

/-! What a user algorithm can write to: region 2 starts at the multiple of its size below
the address it is given, and so has the kernel's RAM in it. -/

namespace Stmdsp

/-! ### The regions `boardInit` programs -/

def dataRegion : MpuRegion := ⟨0x20008000, 0x03080021⟩
def codeRegion : MpuRegion := ⟨0x0807F800, 0x06080015⟩
def algorithmRegion : MpuRegion := ⟨0x10000000, 0x0308001D⟩

theorem protection_regions :
    (List.finRange 8).reverse.map protection.regions =
      [⟨0, 0⟩, ⟨0, 0⟩, ⟨0, 0⟩, algorithmRegion, codeRegion, dataRegion, ⟨0, 0⟩, ⟨0, 0⟩] := by
  decide

theorem covers_disabled (a : UInt32) : (⟨0, 0⟩ : MpuRegion).covers a = false := rfl

theorem dataRegion_covers (a : UInt32) :
    dataRegion.covers a = true ↔ 0x20000000 ≤ a.toNat ∧ a.toNat < 0x20020000 :=
  dataRegion.covers_iff (by decide) (by decide) a

theorem codeRegion_covers (a : UInt32) :
    codeRegion.covers a = true ↔ 0x0807F800 ≤ a.toNat ∧ a.toNat < 0x08080000 :=
  codeRegion.covers_iff (by decide) (by decide) a

theorem algorithmRegion_covers (a : UInt32) :
    algorithmRegion.covers a = true ↔ 0x10000000 ≤ a.toNat ∧ a.toNat < 0x10008000 :=
  algorithmRegion.covers_iff (by decide) (by decide) a

theorem protection_region (a : UInt32) :
    protection.region a =
      if algorithmRegion.covers a then some algorithmRegion
      else if codeRegion.covers a then some codeRegion
      else if dataRegion.covers a then some dataRegion
      else none := by
  rw [Mpu.region, protection_regions]
  simp only [List.find?_cons, covers_disabled, List.find?_nil]
  split_ifs <;> simp_all

/-- Unprivileged code can write to what the exception handlers take for the memory an
algorithm can run in. -/
theorem userWritable_eq (a : UInt32) : protection.userWritable a = executable a := by
  rw [Mpu.userWritable, protection_region, Bool.eq_iff_iff]
  simp only [executable, UInt32.le_iff_toNat_le, UInt32.lt_iff_toNat_lt, UInt32.reduceToNat,
    Bool.or_eq_true, Bool.and_eq_true, decide_eq_true_eq, algorithmRegion_covers,
    codeRegion_covers, dataRegion_covers]
  split_ifs
  · exact iff_of_true (.inr rfl) (by omega)
  · exact iff_of_false (by decide) (by omega)
  · exact iff_of_true (.inr rfl) (by omega)
  · exact iff_of_false (by decide) (by omega)

/-- Privileged code can write to all but the unprivileged code. -/
theorem privilegedWritable_eq (a : UInt32) : protection.privilegedWritable a = !readOnly a := by
  rw [Mpu.privilegedWritable, protection_region, Bool.eq_iff_iff]
  simp only [readOnly, UInt32.le_iff_toNat_le, UInt32.lt_iff_toNat_lt, UInt32.reduceToNat,
    Bool.not_eq_true', Bool.and_eq_false_iff, Bool.or_eq_true, decide_eq_false_iff_not,
    algorithmRegion_covers, codeRegion_covers, dataRegion_covers]
  split_ifs
  · exact iff_of_true (.inr rfl) (by omega)
  · exact iff_of_false (by decide) (by omega)
  · exact iff_of_true (.inr rfl) (by omega)
  · exact iff_of_true (.inr rfl) (by omega)

/-! ### Stores as patches -/

namespace UserStore

/-- What the store sets, if the MPU lets it. -/
def patch (m : Mpu) (s : UserStore) : Patch UInt32 UInt8 := fun a =>
  if s.permitted m then s.bytes[(a - s.addr).toNat]? else none

theorem exec_patch (m : Mpu) (mem : Memory) (s : UserStore) :
    s.exec m mem = (s.patch m).apply mem := by
  funext a
  simp only [exec, Patch.apply, patch]
  split_ifs
  · rw [Memory.store, List.getD_eq_getElem?_getD]
  · rfl

theorem patch_eq_none_iff {m : Mpu} {s : UserStore} {a : UInt32} :
    s.patch m a = none ↔ s.permitted m = false ∨ ¬ s.window.Covers a := by
  rw [patch]
  split_ifs with h
  · rw [List.getElem?_eq_none_iff, h, Window.Covers, not_lt]
    simp [window]
  · simp [h]

theorem permitted_iff {m : Mpu} {s : UserStore} :
    s.permitted m = true ↔ ∀ a, s.window.Covers a → m.userWritable a = true := by
  rw [permitted, List.all_eq_true]
  constructor
  · intro h a ha
    have hbyte := h _ (List.mem_range.mpr ha)
    rwa [UInt32.ofNat_toNat, window, UInt32.add_comm, UInt32.sub_add_cancel] at hbyte
  · intro h i hi
    apply h
    apply Window.covers_add
    rw [UInt32.toNat_ofNat']
    exact (Nat.mod_le _ _).trans_lt (List.mem_range.mp hi)

end UserStore

theorem execStores_eq (m : Mpu) (mem : Memory) (stores : List UserStore) :
    execStores m mem stores = Patch.applyAll mem (stores.map (UserStore.patch m)) := by
  rw [execStores, Patch.applyAll, List.foldl_map]
  congr 1
  funext mem s
  exact s.exec_patch m mem

/-- A set of addresses is safe from a sequence of stores exactly if none that the MPU
permits has a byte there. -/
theorem stores_kept_iff (m : Mpu) (stores : List UserStore) (P : UInt32 → Prop) :
    (∀ mem a, P a → execStores m mem stores a = mem a) ↔
      ∀ s ∈ stores, s.permitted m = true → ∀ a, s.window.Covers a → ¬ P a := by
  have hkept : ∀ a, (∀ mem, execStores m mem stores a = mem a) ↔
      ∀ s ∈ stores, s.permitted m = false ∨ ¬ s.window.Covers a := by
    intro a
    have hnontrivial : Nontrivial UInt8 := ⟨0, 1, by decide⟩
    simp only [execStores_eq]
    rw [Patch.applyAll_kept_iff, List.forall_mem_map]
    simp only [UserStore.patch_eq_none_iff]
  constructor
  · intro h s hs hpermitted a ha hP
    have hnone := (hkept a).mp (fun mem => h mem a hP) s hs
    rw [hpermitted] at hnone
    exact hnone.elim Bool.noConfusion fun hout => hout ha
  · intro h mem a hP
    refine (hkept a).mpr (fun s hs => ?_) mem
    cases hpermitted : s.permitted m with
    | false => exact .inl rfl
    | true => exact .inr fun ha => h s hs hpermitted a ha hP

/-! ### The algorithm's memory -/

/-- A user algorithm's stores change its own memory only exactly if each of them either
touches a byte outside of both writable regions, or none outside that memory. The first
region begins with the kernel's RAM. -/
theorem isolation_iff (stores : List UserStore) :
    (∀ mem a, inAlgorithmRam a = false → execStores protection mem stores a = mem a) ↔
      ∀ s ∈ stores, (∃ a, s.window.Covers a ∧ executable a = false) ∨
        ∀ a, s.window.Covers a → inAlgorithmRam a = true := by
  rw [stores_kept_iff]
  refine forall₂_congr fun s _ => ?_
  rw [UserStore.permitted_iff, ← not_forall_not, ← imp_iff_not_or]
  simp only [userWritable_eq, not_and, Bool.not_eq_false]

/-- One byte at the start of the kernel's RAM. -/
def kernelStore : UserStore := ⟨0x20000000, [1]⟩

/-- It gets through. -/
theorem isolation_broken :
    kernelRam.Covers 0x20000000 ∧ inAlgorithmRam 0x20000000 = false ∧
      execStores protection (fun _ => 0) [kernelStore] 0x20000000 = 1 := by
  decide +kernel

end Stmdsp
