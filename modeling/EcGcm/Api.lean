import EcGcm.ElasticContainer

/-!
# The manager's state, and the calls its handlers are written in

`Manager.h` (the fields), `ECAPI.cpp`, and the part of `DeployerExportServiceImpl.h` that is
state: the deployer service works on the same elastic container and keeps two registries of its
own.

Every call below is a handler action over the whole state, so a handler reads as its source
does. Two of them do not come back for an id they do not know: `ecGetScForUpdate` and
`getSubcontainerFront` end the process (`std::exit`). Two more do so when the agent is missing.

Handlers run one at a time here, so a mutex is part of the state only where a handler that does not
come back leaves it locked. There are two of these: `dep_pod_lock`, which an exception does not
unlock, and `memlock`, with which a request may wait for ever.
-/

set_option autoImplicit false

namespace EcGcm

/-- `ec::Manager` with its `ElasticContainer`, its deployer service and the agent database. -/
structure Manager where
  ec : ElasticContainer
  syscallSequenceNumber : Int64
  cpuleak : Int64
  /-- `idle_container_syscall_seq_num`, the local counter of the idle-sweep thread. -/
  idleContainerSyscallSeqNum : UInt32
  /-- `AgentClientDB::agents_db`. -/
  agentsDb : UnorderedMap Ip4Addr AgentClient
  /-- `DeployerExportServiceImpl::deployedPods`. -/
  deployedPods : UnorderedMap ContainerId (List String)
  /-- `DeployerExportServiceImpl::dockerToSubContainer`. -/
  dockerToSubContainer : UnorderedMap String ContainerId
  /-- `dep_pod_lock` is locked for good. -/
  depPodLock : Bool
  /-- `memlock` is locked for good. -/
  memlock : Bool
  /-- The quota requests handed to the agents so far, oldest first. -/
  quotaRequests : List ContainerQuotaRequest
  deriving DecidableEq

/-- A manager that has just been started, with the agents of the configuration file. -/
def Manager.new (agentsDb : UnorderedMap Ip4Addr AgentClient) : Manager where
  ec := .new
  syscallSequenceNumber := 0
  cpuleak := 0
  idleContainerSyscallSeqNum := 0
  agentsDb := agentsDb
  deployedPods := ∅
  dockerToSubContainer := ∅
  depPodLock := false
  memlock := false
  quotaRequests := []

/-- Handlers of the manager. -/
abbrev M := Handler Manager

namespace Manager

def modifyEc (f : ElasticContainer → ElasticContainer) : M PUnit :=
  modify fun m => { m with ec := f m.ec }

def modifyCpu (f : Global.Cpu → Global.Cpu) : M PUnit :=
  modifyEc fun ec => { ec with cpu := f ec.cpu }

def modifyMem (f : Global.Mem → Global.Mem) : M PUnit :=
  modifyEc fun ec => { ec with mem := f ec.mem }

/-- A write through the pointer to the newest instance of an id. -/
def modifyBack (id : ContainerId) (f : SubContainer → SubContainer) : M PUnit :=
  modifyEc fun ec => ec.modifyBack id f

/-! ## Lookups -/

/-- `get_sc_for_update_back`: exits on an unknown id; an empty queue has no back. -/
def ecGetScForUpdate (id : ContainerId) : M SubContainer := do
  let m ← get
  match m.ec.subcontainers.lookup id with
  | none => Handler.halt .exit
  | some q =>
    match q.getLast? with
    | none => Handler.halt .undef
    | some sc => pure sc

/-- `get_subcontainer_front`. -/
def getSubcontainerFront (id : ContainerId) : M SubContainer := do
  let m ← get
  match m.ec.subcontainers.lookup id with
  | none => Handler.halt .exit
  | some q =>
    match q.head? with
    | none => Handler.halt .undef
    | some sc => pure sc

/-- `sc_map.second->back()` in a loop over the map. -/
def backOf (id : ContainerId) : M SubContainer := do
  let m ← get
  match m.ec.back? id with
  | none => Handler.halt .undef
  | some sc => pure sc

/-- `_ec->get_corres_agent_client(id)`. -/
def getCorresAgentClient (id : ContainerId) : M (Option AgentClient) := do
  let m ← get
  let (client, ec) := m.ec.getCorresAgentClient id
  set { m with ec := ec }
  pure client

/-! ## Quotas -/

/-- `new quota - old` is negative, as signed words. -/
def changeOf (newQuota oldQuota : UInt64) : Change :=
  if Word.amount newQuota - Word.amount oldQuota < 0 then .decr else .incr

/-- `set_sc_quota_syscall`. The busy wait for `sc_inserted()` never ends for a container that
nobody marks as inserted; a missing agent ends the process. -/
def setScQuotaSyscall (env : Env) (sc : SubContainer) (quota : UInt64) (seqNumber : UInt32) :
    M Int := do
  -- `while(unlikely(!sc->sc_inserted())) {}`
  if !sc.inserted then
    Handler.halt .hang
  else
    match ← getCorresAgentClient sc.cId with
    | none => Handler.halt .exit
    | some agent =>
      modify fun m =>
        { m with
          quotaRequests := m.quotaRequests ++
            [⟨agent, sc.cId.cgroupId, quota, changeOf quota sc.quota, seqNumber⟩] }
      pure (env.updateContainerQuota sc.cId)

/-! ## Memory -/

def ecUpdateAllocMemoryInPages (mem : UInt64) : M PUnit := do
  modifyMem fun g => g.decrUnallocatedMemoryInPages mem
  modifyMem fun g => g.incrAllocatedMemoryInPages mem.toInt64

def ecUpdateReclaimMemoryInPages (mem : UInt64) : M PUnit := do
  modifyMem fun g => g.incrUnallocatedMemoryInPages mem
  modifyMem fun g => g.decrAllocatedMemoryInPages mem.toInt64

/-- `sc_set_memory_limit_in_pages`. -/
def scSetMemoryLimitInPages (id : ContainerId) (newMemLimit : UInt64) : M PUnit := do
  -- exits for an unknown id; the write goes to the same instance
  let _ ← ecGetScForUpdate id
  modifyBack id fun sc => sc.setMemLimitInPages newMemLimit

/-- What a call to the outside comes to: its answer, or a halt. -/
def answer {α : Type} (lost : Halt) : Option α → M α
  | none => Handler.halt lost
  | some a => pure a

/-- `sc_resize_memory_limit_in_pages`. An RPC that fails is not the end of the loop around `Next`,
and there is no other completion to come. -/
def scResizeMemoryLimitInPages (env : Env) (id : ContainerId) : M Int := do
  match ← getCorresAgentClient id with
  | none => Handler.halt .exit
  | some _ => answer .hang (env.resizeMemoryLimitPages id)

/-- `sc_get_memory_usage_in_bytes_cadvisor`: 0 when the agent or the docker id is missing. -/
def scGetMemoryUsageInBytesCadvisor (env : Env) (id : ContainerId) (dockerId : String) :
    M UInt64 := do
  match ← getCorresAgentClient id with
  | none => pure 0
  | some _ => if dockerId = "" then pure 0 else answer .throw (env.getContMemUsage id)

/-- `sc_get_memory_limit_in_bytes_cadvisor`, likewise. -/
def scGetMemoryLimitInBytesCadvisor (env : Env) (id : ContainerId) (dockerId : String) :
    M UInt64 := do
  match ← getCorresAgentClient id with
  | none => pure 0
  | some _ => if dockerId = "" then pure 0 else answer .throw (env.getContMemLimit id)

end Manager

end EcGcm
