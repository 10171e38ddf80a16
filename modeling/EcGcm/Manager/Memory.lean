import EcGcm.Api

/-!
# Memory requests and reclaim

`Manager::handle_mem_req`, `reclaim`, `handle_reclaim_memory`, `determine_mem_limit_for_new_pod`
and the periodic pass of `run`.

Memory moves in two steps that are far apart. `reclaim` shrinks one container and only *reports*
the pages it freed; whoever called it credits the pool afterwards. `byte_to_page` is `ceil` of an
integer division, so it rounds down, and what it returns is a `double` that holds an integer.

`handle_reclaim_memory` starts one task per container and adds up what they return; the tasks
touch different containers, and the model runs them one after another (that no other order makes a
difference is `ReclaimTask.settled_handleReclaimMemory`). A task that blocks or throws keeps the
others from nothing; it is the `get` of its future that does not come back then. `memlock` is held
by `handle_mem_req` from the first read of the pool to its return.
-/

set_option autoImplicit false

namespace EcGcm

def byteToPage (x : UInt64) : UInt64 := x / 4096

def pageToByte (x : UInt64) : UInt64 := x * 4096

/-- `_SAFE_MARGIN_BYTES_`: 50 MiB. -/
def safeMarginBytes : UInt64 := 52428800

namespace Manager

/-! ## Reclaim -/

/-- `reclaim`: shrink one container to its usage and the margin; the pages freed. -/
def reclaim (env : Env) (containerId : ContainerId) (sc : SubContainer) : M UInt64 := do
  let memLimitBytes := pageToByte sc.memLimitInPages
  let memUsageBytes ← scGetMemoryUsageInBytesCadvisor env containerId sc.dockerId
  -- `(unsigned long)-1 * __PAGE_SIZE__`, the mark of a failed reading
  if memUsageBytes = (0 - 1) * 4096 then return 0
  if memLimitBytes - memUsageBytes > safeMarginBytes then
    let resizeTargetBytes := memUsageBytes + safeMarginBytes
    let notResized ← scResizeMemoryLimitInPages env containerId
    if notResized = 0 then
      scSetMemoryLimitInPages sc.cId (byteToPage resizeTargetBytes)
      return byteToPage (memLimitBytes - resizeTargetBytes)
    else return 0
  else return 0

/-- Reclaim from every container of a list of ids that `keep` does not spare, one after the
other. -/
def reclaimFrom (env : Env) (keep : SubContainer → Bool) : List ContainerId → M UInt64
  | [] => pure 0
  | id :: ids => do
    let sc ← backOf id
    let amnt ← if keep sc then pure 0 else reclaim env id sc
    let rest ← reclaimFrom env keep ids
    return amnt + rest

/-- Start a task for every container of a list of ids that is not on the requester's socket. -/
def launchFrom (env : Env) (clientFd : Int) : List ContainerId → M (List (Except Halt UInt64))
  | [] => pure []
  | id :: ids => do
    let sc ← backOf id
    if sc.fd = clientFd then launchFrom env clientFd ids
    else
      let reclaimed ← Handler.task (reclaim env id sc)
      let futures ← launchFrom env clientFd ids
      return reclaimed :: futures

/-- `handle_reclaim_memory`: from everyone but the containers on the requester's socket. -/
def handleReclaimMemory (env : Env) (clientFd : Int) : M UInt64 := do
  let m ← get
  let futures ← launchFrom env clientFd m.ec.subcontainers.keys
  let amounts ← Handler.collect futures
  return amounts.sum

/-- One pass of `run`, which spares nobody. -/
def periodicReclaim (env : Env) : M PUnit := do
  let m ← get
  let ret ← reclaimFrom env (fun _ => false) m.ec.subcontainers.keys
  if ret > 0 then ecUpdateReclaimMemoryInPages ret else pure ⟨⟩

/-! ## Requests -/

/-- A slice, or what is left. `memory_available` is compared with the slice as an unsigned
word. -/
def grantOf (slice : UInt64) (memoryAvailable : Int64) : UInt64 :=
  if memoryAvailable.toUInt64 > slice then slice else memoryAvailable.toUInt64

/-- Give the requester its grant. -/
def grantMemory (req : Msg) (memoryAvailable : Int64) : M (AllocRet × Msg) := do
  let m ← get
  let ret := grantOf m.ec.mem.sliceSize memoryAvailable
  ecUpdateAllocMemoryInPages ret
  let rsrcAmnt := req.rsrcAmnt + ret
  let _ ← ecGetScForUpdate req.containerId
  modifyBack req.containerId fun sc => sc.setMemLimitInPages rsrcAmnt
  return (.allocSuccess, { req with rsrcAmnt := rsrcAmnt, request := 0 })

/-- "reclaiming memory and mem_available < 0. THis should not happen!!": a negative pool is filled
up to zero at the expense of the allocated total. -/
def fillNegativePool (memoryAvailable : Int64) : M PUnit := do
  modifyMem fun g => g.incrUnallocatedMemoryInPages (memoryAvailable * -1).toUInt64
  modifyMem fun g => g.decrAllocatedMemoryInPages (memoryAvailable * -1)

/-- `handle_mem_req` between the locking and the unlocking of `memlock`. -/
def serveMemReq (env : Env) (req : Msg) (clifd : Int) : M (AllocRet × Msg) := do
  let m ← get
  let memoryAvailable := m.ec.mem.unallocatedMemoryInPages
  if memoryAvailable > 0 then grantMemory req memoryAvailable
  else
    let reclaimedMem ← handleReclaimMemory env clifd
    if reclaimedMem > 0 then
      if memoryAvailable < 0 then fillNegativePool memoryAvailable
      ecUpdateReclaimMemoryInPages reclaimedMem
      let m ← get
      grantMemory req m.ec.mem.unallocatedMemoryInPages
    else return (.allocMemFailed, { req with rsrcAmnt := 0 })

/-- `handle_mem_req`. -/
def handleMemReq (env : Env) (req : Msg) (clifd : Int) : M (AllocRet × Msg) :=
  if req.reqType ≠ memReq then return (.allocMemFailed, { req with rsrcAmnt := 0 })
  else Handler.locked (·.memlock) (fun m => { m with memlock := true }) (serveMemReq env req clifd)

/-! ## Start-up -/

/-- Charge the pool for a new pod with a limit of `pages`, reclaiming and shrinking if need be. -/
def chargeNewPod (env : Env) (id : ContainerId) (clifd : Int) (pages : UInt64) : M PUnit := do
  let m ← get
  if pages ≤ m.ec.mem.unallocatedMemoryInPages.toUInt64 then ecUpdateAllocMemoryInPages pages
  -- "tbh not sure how to handle this"
  else if m.ec.mem.unallocatedMemoryInPages.toUInt64 = 0 then pure ⟨⟩
  else
    let reclaimedMem ← handleReclaimMemory env clifd
    ecUpdateReclaimMemoryInPages reclaimedMem
    let m ← get
    if pages ≤ m.ec.mem.unallocatedMemoryInPages.toUInt64 then ecUpdateAllocMemoryInPages pages
    else
      -- resized to what the pool has, and charged for what was read
      let notResized ← scResizeMemoryLimitInPages env id
      if notResized ≠ 0 then pure ⟨⟩ else ecUpdateAllocMemoryInPages pages

/-- `determine_mem_limit_for_new_pod`, the detached start-up thread of the newest instance of
`id`. It waits for the docker id, and ends by recording the limit it read, whatever it charged. -/
def determineMemLimitForNewPod (env : Env) (id : ContainerId) (clifd : Int) : M PUnit := do
  let sc ← backOf id
  if sc.dockerId = "" then Handler.halt .hang
  else
    let memLimBytes ← scGetMemoryLimitInBytesCadvisor env sc.cId sc.dockerId
    let pages := byteToPage memLimBytes
    chargeNewPod env sc.cId clifd pages
    modifyBack id fun sc => sc.setMemLimitInPages pages

end Manager

end EcGcm
