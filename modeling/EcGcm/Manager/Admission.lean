import EcGcm.Manager.CpuReport
import EcGcm.Manager.Memory

/-!
# Admission and dispatch

`ECAPI::determine_quota_for_new_pod`, `Manager::handle_add_cgroup_to_ec`, `Manager::handle_req`.

A new container is charged, inserted and counted into the fair share before its agent is looked
up. `handle_add_cgroup_to_ec` also starts the detached thread that runs
`determineMemLimitForNewPod`; that thread is a step of its own.
-/

set_option autoImplicit false

namespace EcGcm.Manager

/-- `determine_quota_for_new_pod`: the update flag and the quota. The last test of the source,
`quota > unallocated_rt`, is the negation of the first. -/
def determineQuotaForNewPod (reqQuota : UInt64) : M (Bool × UInt64) := do
  let m ← get
  let unallocatedRt := m.ec.cpu.unallocatedRt
  if reqQuota ≤ unallocatedRt then
    modifyCpu fun c => (c.decrUnallocatedRt reqQuota).incrAllocRt reqQuota
    return (false, reqQuota)
  else if unallocatedRt = 0 then
    -- an empty pool lends a slice
    let slice := m.ec.cpu.sliceSize
    modifyCpu fun c => (c.incrOverrun slice).incrAllocRt slice
    return (true, slice)
  else
    -- the new pod gets what is left
    modifyCpu fun c => (c.setUnallocatedRt 0).incrAllocRt unallocatedRt
    return (true, unallocatedRt)

/-- `AgentClientDB::get_agent_client_by_ip`, and what is done with its answer. -/
def linkAgent (id : ContainerId) : M PUnit := do
  let m ← get
  match m.agentsDb.lookup id.serverIp with
  | some agent =>
    modifyEc fun ec => ec.addToScAcMap id agent
    modifyBack id fun sc => sc.setScInserted true
  | none => pure ⟨⟩

/-- `handle_add_cgroup_to_ec`. The status of the quota push is not looked at. -/
def handleAddCgroupToEc (env : Env) (req : Msg) (ip : UInt32) (fd : Int) :
    M (AllocRet × Msg) := do
  let (updateQuota, quota) ← determineQuotaForNewPod req.rsrcAmnt
  let sc := SubContainer.new req.cgroupId ip fd quota req.request env.now
  modifyEc fun ec => ec.insertSc sc
  modifyEc fun ec => ec.updateFairCpuShare
  linkAgent sc.cId
  if updateQuota then
    let sc ← backOf sc.cId
    let _ ← setScQuotaSyscall env sc quota 13
  return (.allocInit, { req with request := req.request + 1 })

/-- `handle_req`. -/
def handleReq (env : Env) (req : Msg) (hostIp : UInt32) (clifd : Int) : M (AllocRet × Msg) :=
  if req.reqType = memReq then handleMemReq env req clifd
  else if req.reqType = cpuReq then handleCpuUsageReport env req
  else if req.reqType = initReq then handleAddCgroupToEc env req hostIp clifd
  else pure (.failed, req)

end EcGcm.Manager
