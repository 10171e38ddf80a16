import EcGcm.SubContainer
import EcGcm.Stats.Global

/-!
# The elastic container

`ElasticContainer.cpp`, `ElasticContainer.h`: all containers of one application, the agent each
of them is reached through, and the two pools.

`subcontainers` maps an id to a queue, because a cgroup id can come back while an older instance
of it is still registered. The queue is a list, oldest first. The map owns the instances; where
the source keeps a pointer to the newest one, the model updates the last element in place
(`modifyBack`).
-/

set_option autoImplicit false

namespace EcGcm

/-- `ec::ElasticContainer`. A null `AgentClient*` is `none`. -/
structure ElasticContainer where
  subcontainers : UnorderedMap ContainerId (List SubContainer)
  scAcMap : UnorderedMap ContainerId (Option AgentClient)
  fairCpuShare : UInt64
  mem : Global.Mem
  cpu : Global.Cpu
  deriving DecidableEq

namespace ElasticContainer

/-- `ElasticContainer(_ec_id)`. -/
def new : ElasticContainer where
  subcontainers := ∅
  scAcMap := ∅
  fairCpuShare := 0
  mem := .new
  cpu := .new

/-! ## The queues -/

/-- The newest instance registered under an id. -/
def back? (ec : ElasticContainer) (id : ContainerId) : Option SubContainer :=
  (ec.subcontainers.lookup id).bind List.getLast?

/-- A write through the pointer to the newest instance. -/
def modifyBack (ec : ElasticContainer) (id : ContainerId) (f : SubContainer → SubContainer) :
    ElasticContainer :=
  match ec.subcontainers.lookup id with
  | some q => { ec with subcontainers := ec.subcontainers.insert id (q.modifyLast f) }
  | none => ec

/-- `insert_sc`. For a present key the queue is extended through its pointer; the `insert` that
follows in the source finds the key and does nothing. -/
def insertSc (ec : ElasticContainer) (sc : SubContainer) : ElasticContainer :=
  match ec.subcontainers.lookup sc.cId with
  | some q => { ec with subcontainers := ec.subcontainers.insert sc.cId (q ++ [sc]) }
  | none => { ec with subcontainers := ec.subcontainers.insert sc.cId [sc] }

/-- `ec_delete_from_subcontainers_map`: the oldest instance goes; the key goes with the last. -/
def ecDeleteFromSubcontainersMap (ec : ElasticContainer) (scId : ContainerId) :
    Int × ElasticContainer :=
  match ec.subcontainers.lookup scId with
  | some q =>
    if q.length > 1 then
      (0, { ec with subcontainers := ec.subcontainers.insert scId q.tail })
    else
      (0, { ec with subcontainers := ec.subcontainers.erase scId })
  | none => (-1, ec)

/-- `update_fair_cpu_share`. -/
def updateFairCpuShare (ec : ElasticContainer) : ElasticContainer :=
  -- the divisor is the number of ids, not of instances
  if ec.subcontainers.keys.isEmpty then
    { ec with fairCpuShare := ec.cpu.totalCpu }
  else
    { ec with fairCpuShare := ec.cpu.totalCpu / UInt64.ofNat ec.subcontainers.keys.length }

/-! ## The agents -/

/-- `get_corres_agent_client`: `sc_ac_map[container_id]`, which leaves a null entry behind for
an id that has none. -/
def getCorresAgentClient (ec : ElasticContainer) (id : ContainerId) :
    Option AgentClient × ElasticContainer :=
  let (client, scAcMap) := UnorderedMap.subscript ec.scAcMap id none
  (client, { ec with scAcMap := scAcMap })

/-- `add_to_sc_ac_map`. -/
def addToScAcMap (ec : ElasticContainer) (id : ContainerId) (client : AgentClient) :
    ElasticContainer :=
  { ec with scAcMap := UnorderedMap.emplace ec.scAcMap id (some client) }

/-! ## Totals over all instances -/

/-- The sum of `g` over all live instances, in every queue. -/
def sumOver (g : SubContainer → ℕ) (ec : ElasticContainer) : ℕ :=
  UnorderedMap.total (fun q => (q.map g).sum) ec.subcontainers

/-- The recorded quotas of all live containers. -/
def totalQuota (ec : ElasticContainer) : ℕ := ec.sumOver fun sc => sc.quota.toNat

/-- The recorded memory limits of all live containers, in pages. -/
def totalLimit (ec : ElasticContainer) : ℕ := ec.sumOver fun sc => sc.memLimitInPages.toNat

end ElasticContainer

end EcGcm
