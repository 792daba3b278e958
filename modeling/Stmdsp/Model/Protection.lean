import Stmdsp.Lib.Mpu
import Stmdsp.Lib.Window
import Stmdsp.Model.Exceptions

/-! Memory protection on the L4 target: the regions `boardInit` programs, the memory map
of the linker script, and stores of the user algorithm under them. -/

namespace Stmdsp

/-! ### `mpu.h` -/

def MPU_RASR_ENABLE : UInt32 := (1 : UInt32) <<< 0
def MPU_RASR_SIZE (n : UInt32) : UInt32 := n <<< 1
def MPU_RASR_SIZE_2K : UInt32 := MPU_RASR_SIZE 10
def MPU_RASR_SIZE_32K : UInt32 := MPU_RASR_SIZE 14
def MPU_RASR_SIZE_128K : UInt32 := MPU_RASR_SIZE 16
def MPU_RASR_ATTR_AP_RW_RW : UInt32 := (3 : UInt32) <<< 24
def MPU_RASR_ATTR_AP_RO_RO : UInt32 := (6 : UInt32) <<< 24
def MPU_RASR_ATTR_NON_CACHEABLE : UInt32 := (1 : UInt32) <<< 19
def MPU_CTRL_ENABLE : UInt32 := (1 : UInt32) <<< 0
def MPU_CTRL_PRIVDEFENA : UInt32 := (1 : UInt32) <<< 2

def mpuConfigureRegion (region : Fin 8) (addr attribs : UInt32) (m : Mpu) : Mpu :=
  (({ m with rnr := region }).writeRbar addr).writeRasr attribs

def mpuEnable (ctrl : UInt32) (m : Mpu) : Mpu := { m with ctrl := ctrl ||| MPU_CTRL_ENABLE }

/-- The end of `boardInit`: data of the algorithm thread and the sample buffers, code of
the algorithm thread, code of the user algorithm. -/
def boardInit (m : Mpu) : Mpu :=
  let m := mpuConfigureRegion 2 0x20008000
    (MPU_RASR_ATTR_AP_RW_RW ||| MPU_RASR_ATTR_NON_CACHEABLE ||| MPU_RASR_SIZE_128K |||
      MPU_RASR_ENABLE) m
  let m := mpuConfigureRegion 3 0x0807F800
    (MPU_RASR_ATTR_AP_RO_RO ||| MPU_RASR_ATTR_NON_CACHEABLE ||| MPU_RASR_SIZE_2K |||
      MPU_RASR_ENABLE) m
  mpuConfigureRegion 4 0x10000000
    (MPU_RASR_ATTR_AP_RW_RW ||| MPU_RASR_ATTR_NON_CACHEABLE ||| MPU_RASR_SIZE_32K |||
      MPU_RASR_ENABLE) m

/-- Without guard pages, and with `PORT_USE_SYSCALL`. -/
def port_init (m : Mpu) : Mpu := mpuEnable MPU_CTRL_PRIVDEFENA m

/-- The MPU while the threads run. -/
def protection : Mpu := port_init (boardInit .reset)

/-! ### The linker script -/

/-- `ram0`: data and stacks of the kernel and the privileged threads. -/
def kernelRam : Window := ⟨0x20000000, 32 * 1024⟩

/-- `ram1`, `ramc` and `ram4`: sample buffers, unprivileged data, algorithm memory. -/
def algorithmRam : List Window :=
  [⟨0x20008000, 48 * 1024⟩, ⟨0x20014000, 16 * 1024⟩, ⟨0x10000000, 32 * 1024⟩]

def inAlgorithmRam (a : UInt32) : Bool := algorithmRam.any fun w => decide (w.Covers a)

/-! ### Stores -/

/-- Of any length and alignment; a store the core splits is the list of its parts. -/
structure UserStore where
  addr : UInt32
  bytes : List UInt8
  deriving DecidableEq, Repr

namespace UserStore

def window (s : UserStore) : Window := ⟨s.addr, s.bytes.length⟩

def permitted (m : Mpu) (s : UserStore) : Bool :=
  (List.range s.bytes.length).all fun i => m.userWritable (s.addr + UInt32.ofNat i)

/-- A store the MPU forbids has no effect. -/
def exec (m : Mpu) (mem : Memory) (s : UserStore) : Memory :=
  if s.permitted m then mem.store s.addr s.bytes else mem

end UserStore

def execStores (m : Mpu) (mem : Memory) (stores : List UserStore) : Memory :=
  stores.foldl (UserStore.exec m) mem

end Stmdsp
