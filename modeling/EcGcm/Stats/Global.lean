import EcGcm.Lib.Word

/-!
# The application-wide pools

`stats/global/cpu_g.cpp`, `stats/global/mem_g.cpp`. Each accessor takes its own mutex, so each
is one atomic step.

The CPU counters are unsigned and every decrement saturates (`Word.satSub`). The memory counters
are signed, take unsigned or signed arguments, and only the decrements saturate.
-/

set_option autoImplicit false

namespace EcGcm.Global

open Word

/-- `ec::global::stats::cpu`. -/
structure Cpu where
  sliceSize : UInt64
  unallocatedRt : UInt64
  totalCpu : UInt64
  overrun : UInt64
  allocRt : UInt64
  /-- Ghost: how many decrements have saturated so far. Written below, read by no function. -/
  clipped : ℕ
  deriving DecidableEq, Repr

namespace Cpu

/-- `cpu::cpu()`. -/
def new : Cpu where
  sliceSize := 30000000
  unallocatedRt := 0
  totalCpu := 0
  overrun := 0
  allocRt := 0
  clipped := 0

def decrUnallocatedRt (c : Cpu) (decr : UInt64) : Cpu :=
  { c with
    unallocatedRt := satSub c.unallocatedRt decr
    clipped := c.clipped + (clips c.unallocatedRt decr).toNat }

/-- `incr_unalloacted_rt`. -/
def incrUnallocatedRt (c : Cpu) (incr : UInt64) : Cpu :=
  { c with unallocatedRt := c.unallocatedRt + incr }

def setUnallocatedRt (c : Cpu) (val : UInt64) : Cpu := { c with unallocatedRt := val }

def setTotalCpu (c : Cpu) (totCpu : UInt64) : Cpu := { c with totalCpu := totCpu }

def incrOverrun (c : Cpu) (incr : UInt64) : Cpu := { c with overrun := c.overrun + incr }

def decrOverrun (c : Cpu) (decr : UInt64) : Cpu :=
  { c with
    overrun := satSub c.overrun decr
    clipped := c.clipped + (clips c.overrun decr).toNat }

def incrAllocRt (c : Cpu) (incr : UInt64) : Cpu := { c with allocRt := c.allocRt + incr }

def decrAllocRt (c : Cpu) (decr : UInt64) : Cpu :=
  { c with
    allocRt := satSub c.allocRt decr
    clipped := c.clipped + (clips c.allocRt decr).toNat }

end Cpu

/-- `ec::global::stats::mem`. -/
structure Mem where
  memoryLimitInPages : UInt64
  sliceSize : UInt64
  unallocatedMemoryInPages : Int64
  allocatedMemoryInPages : Int64
  deriving DecidableEq, Repr

namespace Mem

/-- `mem::mem()`. -/
def new : Mem where
  memoryLimitInPages := 0
  sliceSize := 5000
  unallocatedMemoryInPages := 0
  allocatedMemoryInPages := 0

def setMemoryLimitInPages (m : Mem) (ml : UInt64) : Mem := { m with memoryLimitInPages := ml }

def setUnallocatedMemoryInPages (m : Mem) (ma : Int64) : Mem :=
  { m with unallocatedMemoryInPages := ma }

/-- The sum is formed in `uint64_t` and stored back in an `int64_t`. -/
def incrUnallocatedMemoryInPages (m : Mem) (toIncr : UInt64) : Mem :=
  { m with unallocatedMemoryInPages := (m.unallocatedMemoryInPages.toUInt64 + toIncr).toInt64 }

def decrUnallocatedMemoryInPages (m : Mem) (toDecr : UInt64) : Mem :=
  let result := (m.unallocatedMemoryInPages.toUInt64 - toDecr).toInt64
  { m with unallocatedMemoryInPages := if result < 0 then 0 else result }

def setAllocatedMemoryInPages (m : Mem) (ma : Int64) : Mem :=
  { m with allocatedMemoryInPages := ma }

def incrAllocatedMemoryInPages (m : Mem) (incr : Int64) : Mem :=
  { m with allocatedMemoryInPages := m.allocatedMemoryInPages + incr }

def decrAllocatedMemoryInPages (m : Mem) (decr : Int64) : Mem :=
  let result := m.allocatedMemoryInPages - decr
  { m with allocatedMemoryInPages := if result < 0 then 0 else result }

section Fields

variable (m : Mem) (d : UInt64) (i : Int64)

@[simp] theorem allocated_incrUnallocated :
    (m.incrUnallocatedMemoryInPages d).allocatedMemoryInPages = m.allocatedMemoryInPages := rfl

@[simp] theorem allocated_decrUnallocated :
    (m.decrUnallocatedMemoryInPages d).allocatedMemoryInPages = m.allocatedMemoryInPages := rfl

@[simp] theorem unallocated_incrAllocated :
    (m.incrAllocatedMemoryInPages i).unallocatedMemoryInPages = m.unallocatedMemoryInPages := rfl

@[simp] theorem unallocated_decrAllocated :
    (m.decrAllocatedMemoryInPages i).unallocatedMemoryInPages = m.unallocatedMemoryInPages := rfl

end Fields

end Mem

end EcGcm.Global
