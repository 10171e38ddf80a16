import EcGcm.Lib.System
import EcGcm.Deploy

/-!
# The process as one system

Every way the outside world, or one of the process's own threads, makes the controller do
something is an `Event`. Handlers run one at a time here; the state goes on after a handler that
returned or blocked its own thread, and stops with the process. gRPC catches what a handler of the
deployer service throws; an exception in a thread of the controller's own ends the process.

Two events are continuations of threads that an earlier handler left behind:
`matchDockerId`, of a `ReportPodSpec` that is waiting for its container, and `memLimit`, of the
start-up thread of a container, which is taken to be the newest instance of its id. Which of these
threads exist is not recorded, so both may happen at any time.
-/

set_option autoImplicit false

namespace EcGcm

inductive Event
  | appSpec (spec : ExportAppSpec)
  | podSpec (pod : ExportPodSpec)
  | matchDockerId (scId : ContainerId) (dockerId : String)
  | deletePod (dockerId : String)
  | message (env : Env) (req : Msg) (hostIp : UInt32) (clifd : Int)
  | memLimit (env : Env) (id : ContainerId) (clifd : Int)
  | idleSweep (env : Env)
  | periodicReclaim (env : Env)

open Manager

/-- The handler of an event, its reply left out. -/
def Event.handle : Event → M PUnit
  | .appSpec spec => do let _ ← reportAppSpec spec
  | .podSpec pod => do let _ ← reportPodSpec pod
  | .matchDockerId scId dockerId => scIdToDockerIdMatcherThread scId dockerId
  | .deletePod dockerId => do let _ ← Manager.deletePod dockerId
  | .message env req hostIp clifd => Handler.inThread do let _ ← handleReq env req hostIp clifd
  | .memLimit env id clifd => Handler.inThread (determineMemLimitForNewPod env id clifd)
  | .idleSweep env => checkForIdleContainers env
  | .periodicReclaim env => Handler.inThread (Manager.periodicReclaim env)

section Dispatch

variable {env : Env} {req : Msg} {hostIp : UInt32} {clifd : Int}

theorem handleReq_of_mem (ht : req.reqType = memReq) :
    handleReq env req hostIp clifd = handleMemReq env req clifd := by
  unfold handleReq
  rw [ht]
  rfl

theorem handleReq_of_cpu (ht : req.reqType = cpuReq) :
    handleReq env req hostIp clifd = handleCpuUsageReport env req := by
  unfold handleReq
  rw [ht]
  rfl

theorem handleReq_of_init (ht : req.reqType = initReq) :
    handleReq env req hostIp clifd = handleAddCgroupToEc env req hostIp clifd := by
  unfold handleReq
  rw [ht]
  rfl

end Dispatch

/-- The CPU report an event delivers, if it does. -/
def Event.report? : Event → Option (Env × Msg)
  | .message env req _ _ => if req.reqType = cpuReq then some (env, req) else none
  | _ => none

theorem Event.handle_of_report {e : Event} {env : Env} {req : Msg}
    (h : e.report? = some (env, req)) :
    req.reqType = cpuReq ∧
      e.handle = Handler.inThread (handleCpuUsageReport env req >>= fun _ => pure ⟨⟩) := by
  cases e with
  | message env' req' hostIp clifd =>
    unfold report? at h
    dsimp only at h
    split at h
    · rename_i ht
      cases h
      refine ⟨ht, ?_⟩
      rw [← handleReq_of_cpu ht]
      rfl
    · cases h
  | appSpec spec => cases h
  | podSpec pod => cases h
  | matchDockerId scId dockerId => cases h
  | deletePod dockerId => cases h
  | memLimit env id clifd => cases h
  | idleSweep env => cases h
  | periodicReclaim env => cases h

/-- The controller. -/
def gcm : System Manager Event where
  enabled _ _ := True
  next e m := (e.handle.run m).resume

instance (m : Manager) (e : Event) : Decidable (gcm.enabled m e) := .isTrue trivial

/-- The handler of the event comes to its end. -/
def Manager.Completes (m : Manager) (e : Event) : Prop := (e.handle.run m).result.isSome

instance (m : Manager) (e : Event) : Decidable (m.Completes e) :=
  inferInstanceAs (Decidable (_ = true))

/-- A manager that has just been told what its application may use. -/
def Manager.started (agentsDb : UnorderedMap Ip4Addr AgentClient) (spec : ExportAppSpec) :
    Manager :=
  ((reportAppSpec spec).run (.new agentsDb)).state

/-! ## A small deployment, for concrete runs -/

/-- A world that gives every container the same answers, on a machine with IEEE doubles. -/
def Env.uniform (now quotaStatus memStatus : Int) (usage limit : UInt64) : Env where
  now := now
  rounding := .binary64
  updateContainerQuota _ := quotaStatus
  resizeMemoryLimitPages _ := some memStatus
  getContMemUsage _ := some usage
  getContMemLimit _ := some limit

/-- 127.0.0.1. -/
def node : Ip4Addr := ⟨16777343⟩

def oneAgent : UnorderedMap Ip4Addr AgentClient :=
  (∅ : UnorderedMap Ip4Addr AgentClient).insert node ⟨node, 4445⟩

/-- A message of the node's container `cgroupId`. -/
def msgOf (cgroupId reqType : UInt32) (rsrcAmnt : UInt64) (request : UInt32) : Msg :=
  ⟨node, cgroupId, reqType, rsrcAmnt, request, 0, 1⟩

/-- Deliver a message at time 0 in a world where quota pushes end with `status`. -/
def deliver (status : Int) (req : Msg) : Event :=
  .message (.uniform 0 status 0 0 0) req node.addr 7

/-- The node's container `cgroupId` connects on socket `clifd`. -/
def connect (cgroupId : UInt32) (clifd : Int) : Event :=
  .message (.uniform 0 0 0 0 0) (msgOf cgroupId initReq 1000 0) node.addr clifd

/-- The pod spec of the node's container `cgroupId`. -/
def specOf (cgroupId : UInt32) (dockerId : String) : ExportPodSpec :=
  ⟨dockerId, cgroupId.toInt32, "127.0.0.1"⟩

end EcGcm
