import EcGcm.Manager.Admission

/-!
# The deployer service

`DeployServerGRPC/DeployerExportServiceImpl.cpp`. A pod is registered by two parties in either
order: its node opens a connection (`_INIT_`) and the deployer reports its spec
(`ReportPodSpec`). The spec's RPC blocks until `sc_ac_map` has the container
(`scIdToDockerIdMatcherThread`), then puts the docker id on the newest instance. A spec whose
address does not parse throws with `dep_pod_lock` locked (in a build that logs at level debug,
before that), and gRPC catches the exception.

`DeletePod` takes the pod out of four registries through four helpers, each with a failure
result of its own, and refunds the quota and the memory limit of the *oldest* instance whatever
the helpers said. The third helper waits for `dep_pod_lock`; two registries have lost the pod by
then.
-/

set_option autoImplicit false

namespace EcGcm

/-- `ExportAppSpec`; the application's name is only echoed. -/
structure ExportAppSpec where
  cpuLimit : UInt64
  memLimit : UInt64
  deriving DecidableEq, Repr

structure ExportPodSpec where
  dockerId : String
  cgroupId : Int32
  nodeIp : String
  deriving DecidableEq, Repr

/-- `ContainerId(pod->cgroup_id(), pod->node_ip())`; `none` when the address does not parse. -/
def ExportPodSpec.containerId? (pod : ExportPodSpec) : Option ContainerId :=
  (Ip4Addr.parse pod.nodeIp).map fun ip => ⟨pod.cgroupId.toUInt32, ip⟩

/-- The `grpc::Status` of a reply. -/
inductive Status
  | ok
  | cancelled
  deriving DecidableEq, Repr

def success : String := "thx"

def fail : String := "fail"

namespace Manager

/-- `ReportAppSpec`. The limits come in millicores and MiB. -/
def reportAppSpec (appSpec : ExportAppSpec) : M Status := do
  let totalCpu := appSpec.cpuLimit * 100000
  let pages := appSpec.memLimit * 1024 * 1024 / 4096
  modifyCpu fun c => (c.setTotalCpu totalCpu).setUnallocatedRt totalCpu
  modifyMem fun g =>
    ((g.setMemoryLimitInPages pages).setUnallocatedMemoryInPages
      pages.toInt64).setAllocatedMemoryInPages 0
  return .ok

/-! ## Registration -/

/-- The name of a pod's container; the constructor throws what `ip4_addr::parse` throws. -/
def containerIdOf (pod : ExportPodSpec) : M ContainerId :=
  match pod.containerId? with
  | none => Handler.halt .throw
  | some scId => pure scId

/-- `deployedPods`, between the locking and the unlocking of `dep_pod_lock`. -/
def insertDeployedPod (pod : ExportPodSpec) : M PUnit := do
  let scId ← containerIdOf pod
  modify fun m =>
    { m with
      deployedPods :=
        match m.deployedPods.lookup scId with
        | some q => m.deployedPods.insert scId (q ++ [pod.dockerId])
        | none => m.deployedPods.insert scId [pod.dockerId] }

/-- `insertPodSpec`: the queue first, then the docker id, which may turn out to be taken. -/
def insertPodSpec (pod : ExportPodSpec) : M Int := do
  Handler.locked (·.depPodLock) (fun m => { m with depPodLock := true }) (insertDeployedPod pod)
  let scId ← containerIdOf pod
  let m ← get
  match m.dockerToSubContainer.lookup pod.dockerId with
  -- "Docker ID already exists": `deployedPods` keeps its new entry
  | some _ => return -3
  | none =>
    set { m with dockerToSubContainer := m.dockerToSubContainer.insert pod.dockerId scId }
    return 0

/-- `scIdToDockerIdMatcherThread`. -/
def scIdToDockerIdMatcherThread (scId : ContainerId) (dockerId : String) : M PUnit := do
  let m ← get
  match m.ec.scAcMap.lookup scId with
  -- `cv.wait`; a null entry is an entry
  | none => Handler.halt .hang
  | some _ =>
    let _ ← ecGetScForUpdate scId
    modifyBack scId fun sc => sc.setDockerId dockerId

/-- `ReportPodSpec`: the `thanks` field of the reply. -/
def reportPodSpec (pod : ExportPodSpec) : M String := do
  let ret ← insertPodSpec pod
  if ret = 0 then
    let scId ← containerIdOf pod
    scIdToDockerIdMatcherThread scId pod.dockerId
    return success
  else return fail

/-! ## Deletion -/

def deleteFromScAcMap (scId : ContainerId) : M Int := do
  let m ← get
  match m.ec.scAcMap.lookup scId with
  | some _ =>
    modifyEc fun ec => { ec with scAcMap := ec.scAcMap.erase scId }
    return 0
  | none => return -1

def deleteFromSubcontainersMap (scId : ContainerId) : M Int := do
  let m ← get
  let (ret, ec) := m.ec.ecDeleteFromSubcontainersMap scId
  set { m with ec := ec }
  return ret

def deleteFromDeployedPodsMap (scId : ContainerId) : M Int := do
  let m ← get
  -- `dep_pod_lock`
  if m.depPodLock then Handler.halt .hang
  else
    match m.deployedPods.lookup scId with
    | some _ =>
      set { m with deployedPods := m.deployedPods.erase scId }
      return 0
    | none => return -1

def deleteFromDockerIdScMap (dockerId : String) : M Int := do
  let m ← get
  match m.dockerToSubContainer.lookup dockerId with
  | some _ =>
    set { m with dockerToSubContainer := m.dockerToSubContainer.erase dockerId }
    return 0
  | none => return -1

/-- `getScIdFromDockerId`: the default id, whose cgroup id is 0, when there is none. -/
def getScIdFromDockerId (m : Manager) (dockerId : String) : ContainerId :=
  (m.dockerToSubContainer.lookup dockerId).getD .default

/-- `DeletePod`: the status and the `thanks` field of the reply. -/
def deletePod (dockerId : String) : M (Status × String) := do
  let m ← get
  let scId := m.getScIdFromDockerId dockerId
  if scId.cgroupId = 0 then return (.cancelled, fail)
  -- the oldest instance, whichever of them has the docker id
  let front ← getSubcontainerFront scId
  let s₁ ← deleteFromScAcMap scId
  let s₂ ← deleteFromSubcontainersMap scId
  let s₃ ← deleteFromDeployedPodsMap scId
  let s₄ ← deleteFromDockerIdScMap dockerId
  modifyEc fun ec => ec.updateFairCpuShare
  modifyCpu fun c => (c.decrAllocRt front.quota).incrUnallocatedRt front.quota
  modifyMem fun g =>
    (g.incrUnallocatedMemoryInPages front.memLimitInPages).decrAllocatedMemoryInPages
      front.memLimitInPages.toInt64
  return (.ok, if s₁ = 0 ∧ s₂ = 0 ∧ s₃ = 0 ∧ s₄ = 0 then success else fail)

end Manager

end EcGcm
