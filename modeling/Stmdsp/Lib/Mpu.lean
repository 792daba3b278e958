import Mathlib.Tactic

/-! The memory protection unit of an ARMv7-M core: eight regions of two registers each,
and what they let unprivileged and privileged code write. -/

namespace Stmdsp

/-- `MPU_RBAR` and `MPU_RASR` of a region. -/
structure MpuRegion where
  rbar : UInt32
  rasr : UInt32
  deriving DecidableEq, Repr

namespace MpuRegion

variable (r : MpuRegion)

def enabled : Bool := r.rasr.toNat.testBit 0

/-- From SIZE: the region has `2 ^ order` bytes. -/
def order : ℕ := r.rasr.toNat / 2 % 32 + 1

/-- SRD, of the eighth `i` of the region. -/
def eighthDisabled (i : ℕ) : Bool := r.rasr.toNat.testBit (8 + i)

/-- AP -/
def accessPermission : ℕ := r.rasr.toNat / 2 ^ 24 % 8

/-- The base, its low `order` bits ignored. -/
def base : ℕ := r.rbar.toNat / 2 ^ r.order * 2 ^ r.order

/-- Whether an address is in the region. Regions of less than 256 bytes have no eighths
to disable. -/
def covers (a : UInt32) : Bool :=
  r.enabled && decide (a.toNat / 2 ^ r.order = r.rbar.toNat / 2 ^ r.order) &&
    !(decide (8 ≤ r.order) && r.eighthDisabled (a.toNat % 2 ^ r.order / 2 ^ (r.order - 3)))

/-- RW for both. -/
def userWrite : Bool := r.accessPermission == 3

/-- RW for privileged code, with any of no access, RO and RW for the other. -/
def privilegedWrite : Bool := decide (1 ≤ r.accessPermission ∧ r.accessPermission ≤ 3)

/-- A region with all of its eighths is the aligned block its base is in. -/
theorem covers_iff (henabled : r.enabled = true) (hsrd : ∀ i < 8, r.eighthDisabled i = false)
    (a : UInt32) : r.covers a = true ↔ r.base ≤ a.toNat ∧ a.toNat < r.base + 2 ^ r.order := by
  have hpos : 0 < 2 ^ r.order := Nat.two_pow_pos _
  have hblock : a.toNat / 2 ^ r.order = r.rbar.toNat / 2 ^ r.order ↔
      r.base ≤ a.toNat ∧ a.toNat < r.base + 2 ^ r.order := by
    rw [Nat.div_eq_iff hpos, base]
    omega
  have heighth : 8 ≤ r.order → a.toNat % 2 ^ r.order / 2 ^ (r.order - 3) < 8 := by
    intro horder
    rw [Nat.div_lt_iff_lt_mul (Nat.two_pow_pos _), show 8 = 2 ^ 3 from rfl, ← pow_add,
      show 3 + (r.order - 3) = r.order by omega]
    exact Nat.mod_lt _ hpos
  rw [← hblock, covers, henabled, Bool.true_and]
  by_cases horder : 8 ≤ r.order
  · simp [hsrd _ (heighth horder)]
  · simp [horder]

end MpuRegion

-- The numbers of regions are numerals of `Fin 8`, with this one proof behind all of them.
instance neZero_eight : NeZero 8 := ⟨by decide⟩

structure Mpu where
  regions : Fin 8 → MpuRegion
  /-- `MPU_RNR` -/
  rnr : Fin 8
  ctrl : UInt32

namespace Mpu

/-- Out of reset. -/
def reset : Mpu := ⟨fun _ => ⟨0, 0⟩, 0, 0⟩

/-- `MPU_RBAR` selects the region in its low bits when bit 4, VALID, is set. -/
def writeRbar (m : Mpu) (v : UInt32) : Mpu :=
  let rnr := if v.toNat.testBit 4 then Fin.ofNat 8 v.toNat else m.rnr
  { m with rnr := rnr, regions := Function.update m.regions rnr { m.regions rnr with rbar := v } }

def writeRasr (m : Mpu) (v : UInt32) : Mpu :=
  { m with regions := Function.update m.regions m.rnr { m.regions m.rnr with rasr := v } }

/-- ENABLE and PRIVDEFENA of `MPU_CTRL`. -/
def enabled (m : Mpu) : Bool := m.ctrl.toNat.testBit 0
def privilegedDefault (m : Mpu) : Bool := m.ctrl.toNat.testBit 2

/-- The region an access is checked against: the one with the highest number. -/
def region (m : Mpu) (a : UInt32) : Option MpuRegion :=
  ((List.finRange 8).reverse.map m.regions).find? (·.covers a)

/-- Whether an unprivileged write of the byte gets through. Outside of all regions it
faults. -/
def userWritable (m : Mpu) (a : UInt32) : Bool :=
  !m.enabled || (m.region a).any MpuRegion.userWrite

/-- Whether a privileged write does. -/
def privilegedWritable (m : Mpu) (a : UInt32) : Bool :=
  !m.enabled || ((m.region a).map MpuRegion.privilegedWrite).getD m.privilegedDefault

end Mpu

end Stmdsp
