import EcGcm.Types
import EcGcm.Stats.Local

/-!
# One container

`SubContainer.cpp`, `SubContainer.h`. The mutexes around single fields have no counterpart: a
handler runs to completion here, and where accessors interleave the model says so explicitly.
-/

set_option autoImplicit false

namespace EcGcm

/-- `ec::SubContainer`. -/
structure SubContainer where
  cId : ContainerId
  /-- `c_id.docker_id`; empty until the deployer's pod spec has been matched. -/
  dockerId : String
  fd : Int
  inserted : Bool
  cpu : Local.Cpu
  memLimitInPages : UInt64
  quotaMismatchCounter : ℕ
  /-- In nanoseconds. -/
  lastSeenTs : Int
  deriving DecidableEq

namespace SubContainer

/-- `SubContainer(cgroup_id, ip, _fd, _quota, _nr_throttled)`. -/
def new (cgroupId ip : UInt32) (fd : Int) (quota : UInt64) (nrThrottled : UInt32) (now : Int) :
    SubContainer where
  cId := ⟨cgroupId, .fromNet ip⟩
  dockerId := ""
  fd := fd
  inserted := false
  cpu := .new quota nrThrottled
  memLimitInPages := 0
  quotaMismatchCounter := 0
  lastSeenTs := now

def quota (sc : SubContainer) : UInt64 := sc.cpu.quota

def setQuota (sc : SubContainer) (quota : UInt64) : SubContainer :=
  { sc with cpu := { sc.cpu with quota := quota } }

def setQuotaFlag (sc : SubContainer) (val : Bool) : SubContainer :=
  { sc with cpu := { sc.cpu with setQuotaFlag := val } }

def flush (sc : SubContainer) : SubContainer := { sc with cpu := sc.cpu.flush }

def setDockerId (sc : SubContainer) (dockId : String) : SubContainer :=
  { sc with dockerId := dockId }

def setScInserted (sc : SubContainer) (inserted : Bool) : SubContainer :=
  { sc with inserted := inserted }

def setMemLimitInPages (sc : SubContainer) (newLimit : UInt64) : SubContainer :=
  { sc with memLimitInPages := newLimit }

def incrCpustatSeqNum (sc : SubContainer) : SubContainer :=
  { sc with cpu := { sc.cpu with seqNum := sc.cpu.seqNum + 1 } }

def setCpustatSeqNum (sc : SubContainer) (val : UInt64) : SubContainer :=
  { sc with cpu := { sc.cpu with seqNum := val } }

/-- `incr_quota_mismatch_counter`: post-increment, so the old value is what comes back. -/
def incrQuotaMismatchCounter (sc : SubContainer) : ℕ × SubContainer :=
  (sc.quotaMismatchCounter, { sc with quotaMismatchCounter := sc.quotaMismatchCounter + 1 })

def resetQuotaMismatchCounter (sc : SubContainer) : SubContainer :=
  { sc with quotaMismatchCounter := 0 }

/-- Not heard of for more than two seconds. -/
def checkIfIdle (sc : SubContainer) (now : Int) : Bool :=
  (now - sc.lastSeenTs).tdiv 1000 > 2000000

def updateLastSeenTs (sc : SubContainer) (now : Int) : SubContainer :=
  { sc with lastSeenTs := now }

/-- What every successful quota change leaves on the container. -/
def resized (sc : SubContainer) (quota : UInt64) : SubContainer :=
  ((sc.setQuotaFlag true).setQuota quota).flush

@[simp] theorem quota_resized (sc : SubContainer) (q : UInt64) : (sc.resized q).quota = q := rfl

@[simp] theorem memLimitInPages_setMemLimitInPages {sc : SubContainer} {limit : UInt64} :
    (sc.setMemLimitInPages limit).memLimitInPages = limit := rfl

@[simp] theorem cId_setMemLimitInPages {sc : SubContainer} {limit : UInt64} :
    (sc.setMemLimitInPages limit).cId = sc.cId := rfl

end SubContainer

end EcGcm
