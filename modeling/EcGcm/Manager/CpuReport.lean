import EcGcm.Api

/-!
# CPU reports and the idle sweep

`Manager::handle_cpu_usage_report` and `Manager::check_for_idle_containers`.

A report is handled in five stages, each a function here: the sequence number, the quota
mismatch, the leak repair, the statistics, and the choice of a new quota. The last one is an
`else if` chain over one reading of the counters (`Reading.branch`); every branch that decides to
resize computes a new quota and one **transfer** between the pool, the allocated total and the
overrun (`Reading.resize`). The transfer is made only after the push to the agent succeeded.

Within a successful branch the source writes the container and the counters in an order that
varies from branch to branch; they are different objects, so one order stands for all.
-/

set_option autoImplicit false

namespace EcGcm

open Local (truncToUInt64)

/-! ## Transfers -/

/-- The four ways CPU moves between the counters. -/
inductive Transfer
  /-- From the pool to a container. -/
  | take (amnt : UInt64)
  /-- From a container back to the pool. -/
  | give (amnt : UInt64)
  /-- From nowhere to a container: the overrun grows. -/
  | borrow (amnt : UInt64)
  /-- From a container to pay the overrun back. -/
  | shed (amnt : UInt64)
  deriving DecidableEq, Repr

namespace Transfer

def apply : Transfer → Global.Cpu → Global.Cpu
  | take amnt, c => (c.decrUnallocatedRt amnt).incrAllocRt amnt
  | give amnt, c => (c.incrUnallocatedRt amnt).decrAllocRt amnt
  | borrow amnt, c => (c.incrOverrun amnt).incrAllocRt amnt
  | shed amnt, c => (c.decrOverrun amnt).decrAllocRt amnt

end Transfer

/-- A quota to push, and the transfer that pays for it. -/
structure Resize where
  newQuota : UInt64
  transfer : Transfer
  deriving DecidableEq, Repr

/-! ## The choice of a new quota -/

/-- Everything the `else if` chain looks at. -/
structure Reading where
  rounding : Rounding
  slice : UInt64
  unallocatedRt : UInt64
  overrun : UInt64
  fairCpuShare : UInt64
  rxQuota : UInt64
  rtRemaining : UInt64
  idleFlag : Bool
  rtMean : UInt64
  thrMean : ℚ

/-- The branches of the chain. -/
inductive Branch
  | wakeUp
  | overrun
  | fairShare
  | throttled
  | unused
  | unusedMean
  | keep
  deriving DecidableEq, Repr

/-- `_MAX_UNUSED_RT_IN_NS_`. -/
def maxUnusedRtInNs : UInt64 := 5000000

/-- One core. -/
def oneCore : UInt64 := 100000000

namespace Reading

variable (r : Reading)

/-- `percent_decr`: the unused part of the quota. The source writes the unused runtime as
`rx_quota - (rx_quota - rt_remaining)` in signed arithmetic. -/
def percentDecr : ℚ :=
  r.rounding.div (r.rounding.fl (Word.amount r.rtRemaining)) (r.rounding.ofNat r.rxQuota.toNat)

def branch : Branch :=
  if r.idleFlag ∧ r.unallocatedRt > 0 then .wakeUp
  else if r.overrun > 0 ∧ r.rxQuota > r.fairCpuShare then .overrun
  else if r.rxQuota < r.fairCpuShare ∧ r.thrMean > 1 / 2 then .fairShare
  else if r.thrMean ≥ r.rounding.fl (1 / 10) ∧ r.unallocatedRt > 0 then .throttled
  else if r.percentDecr > r.rounding.fl (1 / 5) ∧ r.rxQuota ≥ r.slice then .unused
  else if r.rtMean > maxUnusedRtInNs ∧ r.rxQuota > r.slice then .unusedMean
  else .keep

/-- Wake-up: one core, or what the pool has. `extra_rt` is an unsigned difference. -/
def wakeUp : Option Resize :=
  let newQuota := min r.unallocatedRt oneCore
  let extraRt := newQuota - r.rxQuota
  -- not zero, that is: a difference below zero has wrapped
  if extraRt > 0 then some ⟨newQuota, .take extraRt⟩ else none

/-- `percent_over`. -/
def percentOver : ℚ :=
  r.rounding.div
    (r.rounding.sub (r.rounding.ofNat r.rxQuota.toNat) (r.rounding.ofNat r.fairCpuShare.toNat))
    (r.rounding.ofNat r.fairCpuShare.toNat)

def amntShareOver : UInt64 := r.rxQuota - r.fairCpuShare

/-- `to_sub` as first computed. -/
def overStep : UInt64 :=
  if r.percentOver > 1 then
    truncToUInt64 (r.rounding.mul r.percentOver (r.rounding.ofNat r.slice.toNat))
  else truncToUInt64 (r.rounding.mul r.percentOver (r.rounding.ofNat r.amntShareOver.toNat))

/-- `to_sub`, before it is capped by the overrun. -/
def overShare : UInt64 :=
  -- small steps jump to the fair share: "ensures we eventually converge"
  if r.overStep < r.slice / 2 then r.amntShareOver else r.overStep

def toSub : UInt64 := min r.overrun r.overShare

/-- Overrun recovery. -/
def recoverOverrun : Option Resize := some ⟨r.rxQuota - r.toSub, .shed r.toSub⟩

/-- `amnt_share_lacking`. -/
def amntShareLacking : UInt64 := r.fairCpuShare - r.rxQuota

/-- `percent_under`. -/
def percentUnder : ℚ :=
  r.rounding.div
    (r.rounding.sub (r.rounding.ofNat r.fairCpuShare.toNat) (r.rounding.ofNat r.rxQuota.toNat))
    (r.rounding.ofNat r.fairCpuShare.toNat)

/-- `percent_under * amnt_share_lacking`, cast. -/
def underShare : UInt64 :=
  truncToUInt64 (r.rounding.mul r.percentUnder (r.rounding.ofNat r.amntShareLacking.toNat))

/-- `to_add`, with CPU left in the pool. Only the large-gap rule is capped by the pool. -/
def toAdd : UInt64 :=
  if r.amntShareLacking > r.slice / 2 then min r.unallocatedRt r.underShare
  else r.amntShareLacking

/-- The local `overrun` of the branch with an empty pool. -/
def toBorrow : UInt64 :=
  if r.amntShareLacking > r.slice / 2 then r.underShare else r.amntShareLacking

/-- Throttled below the fair share. -/
def topUpFairShare : Option Resize :=
  if r.unallocatedRt > 0 then some ⟨r.rxQuota + r.toAdd, .take r.toAdd⟩
  else some ⟨r.rxQuota + r.toBorrow, .borrow r.toBorrow⟩

/-- Throttled at or above the fair share. -/
def throttleBonus : Option Resize :=
  let bonus := r.rounding.mul (r.rounding.mul 20 r.thrMean) (r.rounding.ofNat r.slice.toNat)
  let extraRt := min r.unallocatedRt (truncToUInt64 bonus)
  if extraRt > 0 then some ⟨r.rxQuota + extraRt, .take extraRt⟩ else none

/-- Both give-back branches: shrink to `target`, not below the slice. -/
def giveBack (target : UInt64) : Option Resize :=
  let newQuota := max r.slice target
  if newQuota ≠ r.rxQuota then some ⟨newQuota, .give (r.rxQuota - newQuota)⟩ else none

/-- `rx_quota * (1 - 0.2)`. -/
def giveBackUnused : Option Resize :=
  r.giveBack (truncToUInt64
    (r.rounding.mul (r.rounding.ofNat r.rxQuota.toNat) (r.rounding.sub 1 (r.rounding.fl (1 / 5)))))

def giveBackUnusedMean : Option Resize := r.giveBack (r.rxQuota - maxUnusedRtInNs)

/-- What the chain decides. -/
def resize : Option Resize :=
  match r.branch with
  | .wakeUp => r.wakeUp
  | .overrun => r.recoverOverrun
  | .fairShare => r.topUpFairShare
  | .throttled => r.throttleBonus
  | .unused => r.giveBackUnused
  | .unusedMean => r.giveBackUnusedMean
  | .keep => none

end Reading

/-! ## The stages before it -/

/-- The report's sequence number wins over the container's own count. -/
def SubContainer.syncSeqNum (sc : SubContainer) (rx : UInt64) : SubContainer :=
  let sc := sc.incrCpustatSeqNum
  if sc.cpu.seqNum ≠ rx then sc.setCpustatSeqNum rx else sc

/-- The reported quota differs from the recorded one by a microsecond or more. -/
def SubContainer.quotaMismatch (sc : SubContainer) (rxQuota : UInt64) : Bool :=
  rxQuota / 1000 ≠ sc.quota / 1000

/-- What the mismatch test comes to: the report is dropped, or handled, possibly after the
container has adopted the reported quota. -/
inductive Sync
  | dropped (sc : SubContainer)
  | handled (sc : SubContainer) (cpu : Global.Cpu)

/-- The container takes over the quota it reported. -/
def SubContainer.adoptQuota (sc : SubContainer) (rxQuota : UInt64) (cpu : Global.Cpu) :
    SubContainer × Global.Cpu :=
  let adopted := ((sc.setQuota rxQuota).flush).resetQuotaMismatchCounter
  if rxQuota < sc.quota then
    let diff := sc.quota - rxQuota
    (adopted, (cpu.decrAllocRt diff).incrUnallocatedRt diff)
  else
    let diff := rxQuota - sc.quota
    (adopted, (cpu.decrUnallocatedRt diff).incrAllocRt diff)

/-- The mismatch test. -/
def SubContainer.syncQuota (sc : SubContainer) (rxQuota : UInt64) (cpu : Global.Cpu) : Sync :=
  if sc.quotaMismatch rxQuota then
    let (seen, sc) := sc.incrQuotaMismatchCounter
    -- `seen` is the count before this report
    if seen > 2 then
      let (sc, cpu) := sc.adoptQuota rxQuota cpu
      .handled sc cpu
    else .dropped sc
  else .handled sc cpu

/-- `_MAX_CPU_LOSS_IN_NS_`. -/
def maxCpuLossInNs : Int64 := 1000

/-- `cpuleak` after the current shortfall has been added to it. The accumulator is an `int64_t`;
the addition is read as wrapping. -/
def leakOf (cpuleak : Int64) (cpu : Global.Cpu) : Int64 :=
  cpuleak + (cpu.totalCpu.toInt64 - (cpu.allocRt + cpu.unallocatedRt).toInt64)

/-- The leak repair. -/
def fixRtLeak (cpuleak : Int64) (cpu : Global.Cpu) : Int64 × Global.Cpu :=
  let leak := leakOf cpuleak cpu
  if leak ≥ maxCpuLossInNs then (0, cpu.incrUnallocatedRt leak.toUInt64) else (leak, cpu)

/-- Both samples go into the container's windows; the two means come out. -/
def SubContainer.insertStats (R : Rounding) (sc : SubContainer) (rtRemaining : UInt64)
    (throttled : UInt32) : UInt64 × ℚ × SubContainer :=
  let (rtMean, cpu) := sc.cpu.insertRtStats R rtRemaining
  let (thrMean, cpu) := cpu.insertThStats R throttled
  (rtMean, thrMean, { sc with cpu := cpu })

/-- The counters and the report, as the chain reads them. -/
def Reading.of (R : Rounding) (ec : ElasticContainer) (req : Msg) (idleFlag : Bool)
    (rtMean : UInt64) (thrMean : ℚ) : Reading where
  rounding := R
  slice := ec.cpu.sliceSize
  unallocatedRt := ec.cpu.unallocatedRt
  overrun := ec.cpu.overrun
  fairCpuShare := ec.fairCpuShare
  rxQuota := req.rsrcAmnt
  rtRemaining := req.runtimeRemaining
  idleFlag := idleFlag
  rtMean := rtMean
  thrMean := thrMean

namespace Manager

/-- Push a new quota and, if the push succeeded, record it and make the transfer. -/
def applyResize (env : Env) (scId : ContainerId) (sc : SubContainer) (seqNumber : UInt32)
    (rz : Resize) : M PUnit := do
  let ret ← setScQuotaSyscall env sc rz.newQuota seqNumber
  if ret ≠ 0 then pure ⟨⟩
  else
    modifyBack scId fun sc => sc.resized rz.newQuota
    modifyCpu rz.transfer.apply

/-- `handle_cpu_usage_report`. -/
def handleCpuUsageReport (env : Env) (req : Msg) : M (AllocRet × Msg) := do
  if req.reqType ≠ cpuReq then return (.allocFailed, req)
  let scId := req.containerId
  let sc ← ecGetScForUpdate scId
  -- the time stamp is compared before it is renewed
  let idleFlag := sc.checkIfIdle env.now
  let sc := (sc.updateLastSeenTs env.now).syncSeqNum req.cpustatSeqNum
  let m ← get
  match sc.syncQuota req.rsrcAmnt m.ec.cpu with
  | .dropped sc =>
    modifyBack scId fun _ => sc
    return (.allocSuccess, { req with request := 1 })
  | .handled sc cpu =>
    let (leak, cpu) := fixRtLeak m.cpuleak cpu
    let (rtMean, thrMean, sc) := sc.insertStats env.rounding req.runtimeRemaining req.request
    modify fun m => { m with cpuleak := leak }
    modifyCpu fun _ => cpu
    modifyBack scId fun _ => sc
    -- the chain reads the counters after the repair
    let m ← get
    match (Reading.of env.rounding m.ec req idleFlag rtMean thrMean).resize with
    | none => pure ⟨⟩
    | some rz => applyResize env scId sc m.syscallSequenceNumber.toUInt64.toUInt32 rz
    modify fun m => { m with syscallSequenceNumber := m.syscallSequenceNumber + 1 }
    return (.allocSuccess, { req with request := 1 })

/-! ## The idle sweep -/

/-- `min_quota`: 30% of a core. -/
def minQuota : UInt64 := 30000000

/-- The body of the sweep, for one id. -/
def checkIdleContainer (env : Env) (id : ContainerId) : M PUnit := do
  let sc ← backOf id
  if sc.checkIfIdle env.now ∧ sc.quota ≠ minQuota then
    let m ← get
    -- "only update containers that have > 30% of core", but the test is `!=`
    applyResize env id sc m.idleContainerSyscallSeqNum ⟨minQuota, .give (sc.quota - minQuota)⟩
    modify fun m => { m with idleContainerSyscallSeqNum := m.idleContainerSyscallSeqNum + 1 }
  else pure ⟨⟩

/-- One pass of `check_for_idle_containers`. -/
def checkForIdleContainers (env : Env) : M PUnit := do
  let m ← get
  m.ec.subcontainers.keys.forM (checkIdleContainer env)

end Manager

end EcGcm
