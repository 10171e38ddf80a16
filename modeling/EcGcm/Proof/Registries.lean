import EcGcm.Proof.DeleteFrame
import EcGcm.Proof.Quiet

/-!
# The four registries

A pod is registered in `subcontainers` and `sc_ac_map` by its node, and in `deployedPods` and
`dockerToSubContainer` by the deployer. The two work independently, so seen from one id a
registration goes through phases:

    absent ── _INIT_ ──▸ connected ── spec ──▸ live
    absent ── spec ──▸ announced ── _INIT_ ──▸ matching ── docker id matched ──▸ live

and a deletion takes a live pod back to `absent`. `Registry` keeps the phase of every id beside
the manager, and `Represents` is the refinement between the two: each registry holds, under each
id, what its phase says. The registries correspond whenever no registration is half done.
-/

set_option autoImplicit false

namespace EcGcm

open Handler

/-- How far the registration of a pod has come. -/
inductive Phase
  | absent
  | connected
  | announced (dockerId : String)
  | matching (dockerId : String)
  | live (dockerId : String)
  deriving DecidableEq

namespace Phase

/-- The node's half is done. -/
def isConnected : Phase → Bool
  | connected => true
  | matching _ => true
  | live _ => true
  | _ => false

/-- The docker id, once the deployer has reported it. -/
def dockerId? : Phase → Option String
  | announced d => some d
  | matching d => some d
  | live d => some d
  | _ => none

/-- Nothing is half done. -/
def isSettled : Phase → Bool
  | absent => true
  | live _ => true
  | _ => false

def connect : Phase → Phase
  | absent => connected
  | announced d => matching d
  | p => p

def announce (d : String) : Phase → Phase
  | absent => announced d
  | connected => live d
  | p => p

variable {p : Phase} {d : String}

@[simp] theorem isConnected_connect : p.connect.isConnected = true := by cases p <;> rfl

@[simp] theorem dockerId?_connect : p.connect.dockerId? = p.dockerId? := by cases p <;> rfl

theorem connect_ne_live (h : p.isConnected = false) : p.connect ≠ .live d := by
  cases p with
  | absent => exact nofun
  | announced d' => exact nofun
  | connected => cases h
  | matching d' => cases h
  | live d' => cases h

@[simp] theorem isConnected_announce : (p.announce d).isConnected = p.isConnected := by
  cases p <;> rfl

theorem dockerId?_announce (h : p.dockerId? = none) : (p.announce d).dockerId? = some d := by
  cases p with
  | absent => rfl
  | connected => rfl
  | announced d' => cases h
  | matching d' => cases h
  | live d' => cases h

/-- A connected container whose pod has not been announced goes live. -/
theorem announce_of_connected (h : p.dockerId? = none) (hc : p.isConnected = true) :
    p.announce d = .live d := by
  cases p with
  | connected => rfl
  | absent => cases hc
  | announced d' => cases hc
  | matching d' => cases h
  | live d' => cases h

theorem connected_iff_announced (h : p.isSettled = true) :
    p.isConnected = true ↔ ∃ d, p.dockerId? = some d := by
  cases p with
  | absent => simp [isConnected, dockerId?]
  | live d => simp [isConnected, dockerId?]
  | connected => cases h
  | announced d => cases h
  | matching d => cases h

end Phase

/-- The phase of the pod under `id`. -/
def phaseOf (pods : UnorderedMap ContainerId Phase) (id : ContainerId) : Phase :=
  (pods.lookup id).getD .absent

theorem phaseOf_insert (pods : UnorderedMap ContainerId Phase) (id id' : ContainerId) (p : Phase) :
    phaseOf (pods.insert id p) id' = if id' = id then p else phaseOf pods id' := by
  unfold phaseOf
  rw [UnorderedMap.lookup_insert']
  split <;> rfl

/-- An id that has left `absent` is a key. -/
theorem mem_keys_of_phaseOf {pods : UnorderedMap ContainerId Phase} {id : ContainerId}
    (h : phaseOf pods id ≠ .absent) : id ∈ pods.keys := by
  unfold phaseOf at h
  cases hl : pods.lookup id with
  | none => rw [hl] at h; exact absurd rfl h
  | some p => exact UnorderedMap.mem_keys_iff_lookup.mpr ⟨p, hl⟩

/-- The manager, and how far each registration has come. -/
structure Registry where
  manager : Manager
  pods : UnorderedMap ContainerId Phase

namespace Registry

open Manager

inductive Event
  | connect (env : Env) (req : Msg) (hostIp : UInt32) (clifd : Int)
  | podSpec (pod : ExportPodSpec)
  /-- The waiting thread of a pod spec finds its container. -/
  | matchDockerId (scId : ContainerId) (dockerId : String)
  | deletePod (dockerId : String)
  /-- `get_corres_agent_client`, by whichever thread. -/
  | lookup (id : ContainerId)

/-- Pods that live at the same time have different ids and docker ids, registrations are not
deleted half-way, and only registered ids are looked up. -/
def enabled (s : Registry) : Event → Prop
  | .connect _ req hostIp _ =>
    req.reqType = initReq ∧ req.cgroupId ≠ 0 ∧
      (s.manager.agentsDb.lookup (.fromNet hostIp)).isSome ∧
      (phaseOf s.pods ⟨req.cgroupId, .fromNet hostIp⟩).isConnected = false
  | .podSpec pod =>
    ∃ id ∈ pod.containerId?, (phaseOf s.pods id).dockerId? = none ∧
      ∀ id' ∈ s.pods.keys, (phaseOf s.pods id').dockerId? ≠ some pod.dockerId
  | .matchDockerId scId dockerId => phaseOf s.pods scId = .matching dockerId
  | .deletePod dockerId =>
    ∀ id ∈ s.pods.keys, (phaseOf s.pods id).dockerId? = some dockerId →
      phaseOf s.pods id = .live dockerId
  | .lookup id => (phaseOf s.pods id).isConnected = true

instance (s : Registry) : (e : Event) → Decidable (s.enabled e)
  | .connect .. => inferInstanceAs (Decidable (_ ∧ _ ∧ _ ∧ _))
  | .podSpec _ => inferInstanceAs (Decidable (∃ id ∈ _, _))
  | .matchDockerId .. => inferInstanceAs (Decidable (_ = _))
  | .deletePod _ => inferInstanceAs (Decidable (∀ id ∈ _, _ → _))
  | .lookup _ => inferInstanceAs (Decidable (_ = _))

def handle : Event → M PUnit
  | .connect env req hostIp clifd => do let _ ← handleReq env req hostIp clifd
  | .podSpec pod => do let _ ← reportPodSpec pod
  | .matchDockerId scId dockerId => scIdToDockerIdMatcherThread scId dockerId
  | .deletePod dockerId => do let _ ← Manager.deletePod dockerId
  | .lookup id => do let _ ← getCorresAgentClient id

/-- What an event does to the phases. -/
def note (pods : UnorderedMap ContainerId Phase) : Event → UnorderedMap ContainerId Phase
  | .connect _ req hostIp _ =>
    let id : ContainerId := ⟨req.cgroupId, .fromNet hostIp⟩
    pods.insert id (phaseOf pods id).connect
  | .podSpec pod =>
    match pod.containerId? with
    | some id => pods.insert id ((phaseOf pods id).announce pod.dockerId)
    | none => pods
  | .matchDockerId scId dockerId => pods.insert scId (.live dockerId)
  | .deletePod dockerId =>
    match pods.keys.find? fun id => phaseOf pods id = .live dockerId with
    | some id => pods.insert id .absent
    | none => pods
  | .lookup _ => pods

def next (e : Event) (s : Registry) : Option Registry :=
  ((handle e).run s.manager).resume.map fun m => ⟨m, note s.pods e⟩

/-- Registrations and deletions, in any order. -/
def system : System Registry Event := ⟨enabled, next⟩

instance (s : Registry) (e : Event) : Decidable (system.enabled s e) :=
  inferInstanceAs (Decidable (s.enabled e))

/-- A manager without containers. -/
def start (m : Manager) : Registry := ⟨m, ∅⟩

/-- No registration is half done. -/
def Settled (s : Registry) : Prop := ∀ id ∈ s.pods.keys, (phaseOf s.pods id).isSettled = true

instance (s : Registry) : Decidable s.Settled := inferInstanceAs (Decidable (∀ id ∈ _, _))

end Registry

/-! ## What the registries should be -/

namespace Manager

/-- No pod is registered anywhere, and no pod spec has left `dep_pod_lock` locked. -/
structure Unregistered (m : Manager) : Prop where
  subcontainers : m.ec.subcontainers = ∅
  scAcMap : m.ec.scAcMap = ∅
  deployedPods : m.deployedPods = ∅
  dockerToSubContainer : m.dockerToSubContainer = ∅
  free : m.depPodLock = false

/-- The four registries are in one-to-one correspondence. -/
structure Correspond (m : Manager) : Prop where
  agents : ∀ id, id ∈ m.ec.scAcMap.keys ↔ id ∈ m.ec.subcontainers.keys
  pods : ∀ id, id ∈ m.deployedPods.keys ↔ id ∈ m.ec.subcontainers.keys
  image : ∀ id, id ∈ m.ec.subcontainers.keys ↔ ∃ d, m.dockerToSubContainer.lookup d = some id
  injective : ∀ d d' id, m.dockerToSubContainer.lookup d = some id →
    m.dockerToSubContainer.lookup d' = some id → d = d'
  single : ∀ d id, m.dockerToSubContainer.lookup d = some id →
    ∃ sc, m.ec.subcontainers.lookup id = some [sc] ∧ sc.dockerId = d

/-- Deleting `d` refunds its one instance, and deleting it again is refused and changes nothing. -/
def RefundsOnce (m : Manager) (d : String) (id : ContainerId) : Prop :=
  ∃ sc m', m.ec.subcontainers.lookup id = some [sc] ∧ sc.dockerId = d ∧
    (deletePod d).run m = .ret (.ok, success) m' ∧
    m'.ec.cpu = (m.ec.cpu.decrAllocRt sc.quota).incrUnallocatedRt sc.quota ∧
    m'.ec.mem = (m.ec.mem.incrUnallocatedMemoryInPages
      sc.memLimitInPages).decrAllocatedMemoryInPages sc.memLimitInPages.toInt64 ∧
    (deletePod d).run m' = .ret (.cancelled, fail) m'

/-- What the registries hold under one id. -/
structure Holds (m : Manager) (id : ContainerId) (p : Phase) : Prop where
  instances : if p.isConnected then
      ∃ sc, m.ec.subcontainers.lookup id = some [sc] ∧ ∀ d, p = .live d → sc.dockerId = d
    else m.ec.subcontainers.lookup id = none
  agent : if p.isConnected then ∃ a, m.ec.scAcMap.lookup id = some (some a)
    else m.ec.scAcMap.lookup id = none
  pods : m.deployedPods.lookup id = p.dockerId?.map fun d => [d]

/-- The registries are those of pods in the given phases. -/
structure Represents (m : Manager) (pods : UnorderedMap ContainerId Phase) : Prop where
  holds : ∀ id, m.Holds id (phaseOf pods id)
  dockerIds : ∀ d id,
    m.dockerToSubContainer.lookup d = some id ↔ (phaseOf pods id).dockerId? = some d
  known : ∀ id, (phaseOf pods id).isConnected = true → id.cgroupId ≠ 0
  free : m.depPodLock = false

/-! ## From phases to the registries -/

variable {m m' : Manager} {pods : UnorderedMap ContainerId Phase} {id : ContainerId} {p : Phase}
  {d : String}

theorem Holds.mem_subcontainers (h : m.Holds id p) :
    id ∈ m.ec.subcontainers.keys ↔ p.isConnected = true := by
  rw [UnorderedMap.mem_keys_iff_lookup]
  have hinst := h.instances
  split at hinst
  · rename_i hc
    obtain ⟨sc, hsc, -⟩ := hinst
    exact iff_of_true ⟨_, hsc⟩ hc
  · rename_i hc
    rw [hinst]
    exact iff_of_false (by simp) hc

theorem Holds.mem_scAcMap (h : m.Holds id p) :
    id ∈ m.ec.scAcMap.keys ↔ p.isConnected = true := by
  rw [UnorderedMap.mem_keys_iff_lookup]
  have hagent := h.agent
  split at hagent
  · rename_i hc
    obtain ⟨a, ha⟩ := hagent
    exact iff_of_true ⟨_, ha⟩ hc
  · rename_i hc
    rw [hagent]
    exact iff_of_false (by simp) hc

theorem Holds.mem_deployedPods (h : m.Holds id p) :
    id ∈ m.deployedPods.keys ↔ ∃ d, p.dockerId? = some d := by
  rw [UnorderedMap.mem_keys_iff_lookup, h.pods]
  cases p.dockerId? <;> simp

theorem Represents.correspond (h : m.Represents pods)
    (hsettled : ∀ id ∈ pods.keys, (phaseOf pods id).isSettled = true) : m.Correspond := by
  have hall : ∀ id, (phaseOf pods id).isSettled = true := by
    intro id
    by_cases habs : phaseOf pods id = .absent
    · rw [habs]
      rfl
    · exact hsettled id (mem_keys_of_phaseOf habs)
  refine ⟨fun id => ?_, fun id => ?_, fun id => ?_, fun d d' id hd hd' => ?_, fun d id hd => ?_⟩
  · rw [(h.holds id).mem_scAcMap, (h.holds id).mem_subcontainers]
  · rw [(h.holds id).mem_deployedPods, (h.holds id).mem_subcontainers,
      Phase.connected_iff_announced (hall id)]
  · rw [(h.holds id).mem_subcontainers, Phase.connected_iff_announced (hall id)]
    exact exists_congr fun d => (h.dockerIds d id).symm
  · rw [h.dockerIds] at hd hd'
    exact Option.some.inj (hd.symm.trans hd')
  · rw [h.dockerIds] at hd
    have hs := hall id
    have hinst := (h.holds id).instances
    cases hp : phaseOf pods id with
    | live d' =>
      rw [hp] at hd hinst
      obtain ⟨sc, hsc, hdock⟩ := hinst
      cases hd
      exact ⟨sc, hsc, hdock d rfl⟩
    | absent => rw [hp] at hd; cases hd
    | connected => rw [hp] at hs; cases hs
    | announced d' => rw [hp] at hs; cases hs
    | matching d' => rw [hp] at hs; cases hs

theorem Represents.live_instance (h : m.Represents pods) (hlive : phaseOf pods id = .live d) :
    ∃ sc, m.ec.subcontainers.lookup id = some [sc] ∧ sc.dockerId = d := by
  have hinst := (h.holds id).instances
  rw [hlive] at hinst
  obtain ⟨sc, hsc, hd⟩ := hinst
  exact ⟨sc, hsc, hd d rfl⟩

theorem Represents.lookup_live (h : m.Represents pods) (hlive : phaseOf pods id = .live d) :
    m.dockerToSubContainer.lookup d = some id := by
  rw [h.dockerIds, hlive]
  rfl

/-- A live pod is in all four registries, so its deletion succeeds. -/
theorem Represents.deleteReply (h : m.Represents pods) (hlive : phaseOf pods id = .live d) :
    m.deleteReply d id = success := by
  have hagent := (h.holds id).agent
  have hpods := (h.holds id).pods
  rw [hlive] at hagent hpods
  obtain ⟨a, ha⟩ := hagent
  unfold Manager.deleteReply
  rw [ha, hpods, h.lookup_live hlive]
  rfl

theorem Represents.deletePod (h : m.Represents pods) (hlive : phaseOf pods id = .live d)
    {sc : SubContainer} (hsc : m.ec.subcontainers.lookup id = some [sc]) :
    (deletePod d).run m = .ret (.ok, success) (m.afterDelete d id sc) := by
  have hne : id.cgroupId ≠ 0 := h.known id (by rw [hlive]; rfl)
  have hid := getScIdFromDockerId_of_lookup (h.lookup_live hlive)
  rw [deletePod_of_front hid hne hsc h.free, h.deleteReply hlive]

theorem deletePod_afterDelete {front : SubContainer} :
    (Manager.deletePod d).run (m.afterDelete d id front) =
      .ret (.cancelled, fail) (m.afterDelete d id front) := by
  apply deletePod_of_unknown
  unfold getScIdFromDockerId
  rw [show (m.afterDelete d id front).dockerToSubContainer.lookup d = none from
    AList.lookup_erase ..]
  rfl

theorem Represents.refundsOnce (h : m.Represents pods) (hlive : phaseOf pods id = .live d) :
    m.RefundsOnce d id := by
  obtain ⟨sc, hsc, hd⟩ := h.live_instance hlive
  exact ⟨sc, m.afterDelete d id sc, hsc, hd, h.deletePod hlive hsc, cpu_afterDelete,
    mem_afterDelete, deletePod_afterDelete⟩

/-! ## One event -/

/-- The three registries keyed by id agree at `id`. -/
structure SameAt (m m' : Manager) (id : ContainerId) : Prop where
  instances : m'.ec.subcontainers.lookup id = m.ec.subcontainers.lookup id
  agent : m'.ec.scAcMap.lookup id = m.ec.scAcMap.lookup id
  pods : m'.deployedPods.lookup id = m.deployedPods.lookup id

theorem Holds.congr (h : m.Holds id p) (hsame : SameAt m m' id) : m'.Holds id p where
  instances := by rw [hsame.instances]; exact h.instances
  agent := by rw [hsame.agent]; exact h.agent
  pods := by rw [hsame.pods]; exact h.pods

/-- An event that takes one id to a new phase. -/
theorem Represents.insert (h : m.Represents pods) (hother : ∀ id', id' ≠ id → SameAt m m' id')
    (hid : m'.Holds id p)
    (hdock : ∀ d id', m'.dockerToSubContainer.lookup d = some id' ↔
      if id' = id then p.dockerId? = some d else m.dockerToSubContainer.lookup d = some id')
    (hfree : m'.depPodLock = m.depPodLock) (hknown : p.isConnected = true → id.cgroupId ≠ 0) :
    m'.Represents (pods.insert id p) := by
  refine ⟨fun id' => ?_, fun d id' => ?_, fun id' => ?_, hfree.trans h.free⟩
  · rw [phaseOf_insert]
    split
    · rename_i heq
      exact heq ▸ hid
    · rename_i hne
      exact (h.holds id').congr (hother id' hne)
  · rw [phaseOf_insert, hdock]
    split
    · exact Iff.rfl
    · exact h.dockerIds d id'
  · rw [phaseOf_insert]
    split
    · rename_i heq
      exact heq ▸ hknown
    · exact h.known id'

/-- The same where no docker id changes hands. -/
theorem Represents.advance (h : m.Represents pods) (hother : ∀ id', id' ≠ id → SameAt m m' id')
    (hid : m'.Holds id p) (hdock : m'.dockerToSubContainer = m.dockerToSubContainer)
    (hfree : m'.depPodLock = m.depPodLock) (hp : p.dockerId? = (phaseOf pods id).dockerId?)
    (hknown : p.isConnected = true → id.cgroupId ≠ 0) : m'.Represents (pods.insert id p) := by
  refine h.insert hother hid (fun d id' => ?_) hfree hknown
  rw [hdock, hp]
  split
  · rename_i heq
    rw [heq, h.dockerIds]
  · exact Iff.rfl

/-- The registries once a new instance under a fresh id has been linked to its agent. -/
structure Linked (m : Manager) (id : ContainerId) (m' : Manager) : Prop where
  other : ∀ id', id' ≠ id → SameAt m m' id'
  instances : ∃ sc, m'.ec.subcontainers.lookup id = some [sc]
  agent : ∃ a, m'.ec.scAcMap.lookup id = some (some a)
  pods : m'.deployedPods = m.deployedPods
  dockerIds : m'.dockerToSubContainer = m.dockerToSubContainer
  free : m'.depPodLock = m.depPodLock

section Connect

open ElasticContainer

variable {ec : ElasticContainer} {sc : SubContainer} {agent : AgentClient} {env : Env} {req : Msg}
  {ip : UInt32} {fd : Int}

/-- The elastic container of an admission, after `linkAgent`. -/
def linked (ec : ElasticContainer) (sc : SubContainer) (agent : AgentClient) : ElasticContainer :=
  ((ec.insertSc sc).updateFairCpuShare.addToScAcMap sc.cId agent).modifyBack sc.cId fun sc =>
    sc.setScInserted true

theorem lookup_linked (h : ec.subcontainers.lookup sc.cId = none) (id' : ContainerId) :
    (linked ec sc agent).subcontainers.lookup id' =
      if id' = sc.cId then some [sc.setScInserted true] else ec.subcontainers.lookup id' := by
  have hins : ((ec.insertSc sc).updateFairCpuShare.addToScAcMap sc.cId agent).subcontainers =
      ec.subcontainers.insert sc.cId [sc] := by
    show (ec.insertSc sc).updateFairCpuShare.subcontainers = _
    rw [subcontainers_updateFairCpuShare]
    unfold insertSc
    rw [h]
  have hlook : ((ec.insertSc sc).updateFairCpuShare.addToScAcMap sc.cId agent).subcontainers.lookup
      sc.cId = some ([] ++ [sc]) := by
    rw [hins, AList.lookup_insert]
    rfl
  unfold linked
  rw [subcontainers_modifyBack hlook, hins, UnorderedMap.lookup_insert',
    UnorderedMap.lookup_insert']
  split <;> rfl

theorem scAcMap_linked (h : ec.scAcMap.lookup sc.cId = none) :
    (linked ec sc agent).scAcMap = ec.scAcMap.insert sc.cId (some agent) := by
  unfold linked
  rw [scAcMap_modifyBack]
  unfold addToScAcMap
  dsimp only
  rw [scAcMap_updateFairCpuShare, scAcMap_insertSc, UnorderedMap.emplace_of_lookup_none h]

theorem linkAgent_of_agent (hdb : m.agentsDb.lookup sc.cId.serverIp = some agent) :
    (linkAgent sc.cId).run { m with ec := (ec.insertSc sc).updateFairCpuShare } =
      .ret ⟨⟩ { m with ec := linked ec sc agent } := by
  unfold linkAgent
  rw [run_bind_of_ret run_get]
  dsimp only
  rw [hdb]
  rfl

theorem linked_of_ec {requests : List ContainerQuotaRequest}
    (hsub : ec.subcontainers.lookup sc.cId = none) (hac : ec.scAcMap.lookup sc.cId = none)
    (hec : ec.subcontainers = m.ec.subcontainers) (hec' : ec.scAcMap = m.ec.scAcMap) :
    m.Linked sc.cId { m with ec := linked ec sc agent, quotaRequests := requests } where
  other id' hne := by
    refine ⟨?_, ?_, rfl⟩
    · show (linked ec sc agent).subcontainers.lookup id' = _
      rw [lookup_linked hsub, if_neg hne, hec]
    · show (linked ec sc agent).scAcMap.lookup id' = _
      rw [scAcMap_linked hac, AList.lookup_insert_ne hne, hec']
  instances := by
    refine ⟨sc.setScInserted true, ?_⟩
    show (linked ec sc agent).subcontainers.lookup sc.cId = _
    rw [lookup_linked hsub, if_pos rfl]
  agent := by
    refine ⟨agent, ?_⟩
    show (linked ec sc agent).scAcMap.lookup sc.cId = _
    rw [scAcMap_linked hac, AList.lookup_insert]
  pods := rfl
  dockerIds := rfl
  free := rfl

/-- **An admission under a fresh id, from a node whose agent is known.** The quota push, if there
is one, finds the agent and leaves nothing in the map. -/
theorem wp_handleAddCgroupToEc_of_agent
    (hsub : m.ec.subcontainers.lookup ⟨req.cgroupId, .fromNet ip⟩ = none)
    (hac : m.ec.scAcMap.lookup ⟨req.cgroupId, .fromNet ip⟩ = none)
    (hdb : m.agentsDb.lookup (.fromNet ip) = some agent) :
    wp (handleAddCgroupToEc env req ip fd)
      (fun _ m' => m.Linked ⟨req.cgroupId, .fromNet ip⟩ m') (fun _ _ => False) m := by
  unfold handleAddCgroupToEc
  rw [wp_bind]
  refine wp_determineQuotaForNewPod_of fun r cpu => ?_
  obtain ⟨updateQuota, quota⟩ := r
  dsimp only
  generalize hsc : SubContainer.new req.cgroupId ip fd quota req.request env.now = sc
  have hid : sc.cId = ⟨req.cgroupId, .fromNet ip⟩ := by rw [← hsc]; rfl
  rw [← hid] at hsub hac ⊢
  have hdb' : m.agentsDb.lookup sc.cId.serverIp = some agent := by rw [hid]; exact hdb
  let ec : ElasticContainer := { m.ec with cpu := cpu }
  have hsub' : ec.subcontainers.lookup sc.cId = none := hsub
  have hac' : ec.scAcMap.lookup sc.cId = none := hac
  have hlink : m.Linked sc.cId { m with ec := linked ec sc agent } :=
    linked_of_ec hsub' hac' rfl rfl
  simp only [wp_bind, modifyEc, wp_modify]
  have hrun : (linkAgent sc.cId).run { m with ec := (ec.insertSc sc).updateFairCpuShare } =
      .ret ⟨⟩ { m with ec := linked ec sc agent } := linkAgent_of_agent hdb'
  rw [wp_of_run hrun]
  cases updateQuota with
  | false => exact hlink
  | true =>
    have hback : (linked ec sc agent).back? sc.cId = some (sc.setScInserted true) := by
      refine back?_of_lookup (l := []) ?_
      rw [lookup_linked hsub', if_pos rfl]
      rfl
    have hagent : (linked ec sc agent).agent? sc.cId = some agent := by
      unfold ElasticContainer.agent?
      rw [scAcMap_linked hac', AList.lookup_insert]
      rfl
    have hins : (sc.setScInserted true).inserted = true := rfl
    rw [if_pos rfl, wp_bind, wp_backOf hback, wp_bind,
      wp_of_run (setScQuotaSyscall_of_agent hins hagent)]
    exact linked_of_ec hsub' hac' rfl rfl

end Connect

theorem Represents.connect {env : Env} {req : Msg} {hostIp : UInt32} {clifd : Int}
    (h : m.Represents pods) (hen : (⟨m, pods⟩ : Registry).enabled (.connect env req hostIp clifd)) :
    wp (handleReq env req hostIp clifd)
      (fun _ m' => m'.Represents (Registry.note pods (.connect env req hostIp clifd)))
      (fun _ _ => False) m := by
  obtain ⟨ht, hne, hagent, hphase⟩ := hen
  obtain ⟨agent, hdb⟩ := Option.isSome_iff_exists.mp hagent
  have hold := h.holds ⟨req.cgroupId, .fromNet hostIp⟩
  have hsub := hold.instances
  have hac := hold.agent
  rw [hphase, if_neg (by decide)] at hsub hac
  rw [handleReq_of_init ht]
  refine wp_mono_ret (wp_handleAddCgroupToEc_of_agent hsub hac hdb) fun _ m' hlink => ?_
  refine h.advance hlink.other ⟨?_, ?_, ?_⟩ hlink.dockerIds hlink.free Phase.dockerId?_connect
    fun _ => hne
  · rw [if_pos Phase.isConnected_connect]
    obtain ⟨sc, hsc⟩ := hlink.instances
    exact ⟨sc, hsc, fun d hd => absurd hd (Phase.connect_ne_live hphase)⟩
  · rw [if_pos Phase.isConnected_connect]
    exact hlink.agent
  · rw [hlink.pods, Phase.dockerId?_connect]
    exact hold.pods

/-- Putting the docker id on the instance of `id`. -/
theorem sameAt_setDockerId {id' : ContainerId} (hne : id' ≠ id) :
    SameAt m { m with ec := m.ec.modifyBack id fun sc => sc.setDockerId d } id' where
  instances := ElasticContainer.lookup_modifyBack_ne hne
  agent := by rw [ElasticContainer.scAcMap_modifyBack]
  pods := rfl

theorem matcher_of_connected {sc : SubContainer} {a : Option AgentClient}
    (hsc : m.ec.subcontainers.lookup id = some [sc]) (ha : m.ec.scAcMap.lookup id = some a) :
    (scIdToDockerIdMatcherThread id d).run m =
      .ret ⟨⟩ { m with ec := m.ec.modifyBack id fun sc => sc.setDockerId d } := by
  have hback : (ecGetScForUpdate id).run m = .ret sc m := by
    unfold ecGetScForUpdate
    rw [run_bind_of_ret run_get, hsc]
    rfl
  unfold scIdToDockerIdMatcherThread
  rw [run_bind_of_ret run_get, ha]
  dsimp only
  rw [run_bind_of_ret hback]
  rfl

/-- Without an entry in the agent map the thread waits. -/
theorem matcher_of_unconnected (hagent : m.ec.scAcMap.lookup id = none) :
    (scIdToDockerIdMatcherThread id d).run m = .halt .hang m := by
  unfold scIdToDockerIdMatcherThread
  rw [run_bind_of_ret run_get, hagent]
  rfl

/-- Once the docker id is on the instance of a connected container, its pod is live. -/
theorem holds_live {sc : SubContainer} {a : AgentClient}
    (hsc : m.ec.subcontainers.lookup id = some [sc])
    (ha : m.ec.scAcMap.lookup id = some (some a)) (hpods : m.deployedPods.lookup id = some [d]) :
    Holds { m with ec := m.ec.modifyBack id fun sc => sc.setDockerId d } id (.live d) where
  instances := by
    refine ⟨sc.setDockerId d, ?_, fun d' hd' => ?_⟩
    · rw [ElasticContainer.subcontainers_modifyBack (l := []) hsc, AList.lookup_insert]
      rfl
    · cases hd'
      rfl
  agent := ⟨a, by rw [ElasticContainer.scAcMap_modifyBack]; exact ha⟩
  pods := hpods

theorem Represents.matchDockerId {scId : ContainerId} (h : m.Represents pods)
    (hphase : phaseOf pods scId = .matching d) :
    wp (scIdToDockerIdMatcherThread scId d) (fun _ m' => m'.Represents (pods.insert scId (.live d)))
      (fun _ _ => False) m := by
  have hold := h.holds scId
  have hinst := hold.instances
  have hagent := hold.agent
  have hpods := hold.pods
  have hne := h.known scId
  rw [hphase] at hinst hagent hpods hne
  obtain ⟨sc, hsc, -⟩ := hinst
  obtain ⟨a, ha⟩ := hagent
  rw [wp_of_run (matcher_of_connected hsc ha)]
  refine h.advance (fun id' hid' => sameAt_setDockerId hid') (holds_live hsc ha hpods) rfl rfl ?_
    hne
  rw [hphase]
  rfl

/-! A pod spec enters the deployer's two registries first. -/

theorem Represents.withPodSpec (h : m.Represents pods) (hphase : (phaseOf pods id).dockerId? = none)
    (hfresh : m.dockerToSubContainer.lookup d = none) (hp : p.dockerId? = some d)
    (hknown : p.isConnected = true → id.cgroupId ≠ 0)
    (hsame : ∀ id', id' ≠ id → SameAt (m.withPodSpec id d) m' id')
    (hdock : m'.dockerToSubContainer = (m.withPodSpec id d).dockerToSubContainer)
    (hfree : m'.depPodLock = m.depPodLock) (hid : m'.Holds id p) :
    m'.Represents (pods.insert id p) := by
  have hspec : (m.withPodSpec id d).dockerToSubContainer = m.dockerToSubContainer.insert d id :=
    UnorderedMap.emplace_of_lookup_none hfresh
  refine h.insert (fun id' hne => ?_) hid (fun d' id' => ?_) hfree hknown
  · have hs := hsame id' hne
    refine ⟨hs.instances, hs.agent, hs.pods.trans ?_⟩
    exact AList.lookup_insert_ne hne
  · have hnone : m.dockerToSubContainer.lookup d' ≠ some id := by
      rw [Ne, h.dockerIds, hphase]
      exact nofun
    rw [hdock, hspec, UnorderedMap.lookup_insert', hp]
    by_cases hd' : d' = d
    · subst hd'
      rw [if_pos rfl, hfresh]
      by_cases hid' : id' = id
      · simp [hid']
      · simp [hid', Ne.symm hid']
    · rw [if_neg hd']
      by_cases hid' : id' = id
      · subst hid'
        simp [hnone, Ne.symm hd']
      · simp [hid']

theorem Represents.fresh (h : m.Represents pods)
    (hfresh : ∀ id ∈ pods.keys, (phaseOf pods id).dockerId? ≠ some d) :
    m.dockerToSubContainer.lookup d = none := by
  cases hd : m.dockerToSubContainer.lookup d with
  | none => rfl
  | some id =>
    rw [h.dockerIds] at hd
    refine absurd hd (hfresh id (mem_keys_of_phaseOf fun habs => ?_))
    rw [habs] at hd
    cases hd

theorem Represents.podSpec {pod : ExportPodSpec} (h : m.Represents pods)
    (hen : (⟨m, pods⟩ : Registry).enabled (.podSpec pod)) :
    wp (reportPodSpec pod) (fun _ m' => m'.Represents (Registry.note pods (.podSpec pod)))
      (fun _ m' => m'.Represents (Registry.note pods (.podSpec pod))) m := by
  obtain ⟨id, hid, hphase, hkeys⟩ := hen
  have hfresh := h.fresh hkeys
  have hold := h.holds id
  have hpods : (m.withPodSpec id pod.dockerId).deployedPods.lookup id = some [pod.dockerId] := by
    have hnone := hold.pods
    rw [hphase] at hnone
    show (m.deployedPods.insert id ((m.deployedPods.lookup id).getD [] ++ [pod.dockerId])).lookup id
      = _
    rw [AList.lookup_insert, hnone]
    rfl
  have hp := Phase.dockerId?_announce (d := pod.dockerId) hphase
  have hknown : ((phaseOf pods id).announce pod.dockerId).isConnected = true →
      id.cgroupId ≠ 0 := by
    rw [Phase.isConnected_announce]
    exact h.known id
  have hnote : Registry.note pods (.podSpec pod) =
      pods.insert id ((phaseOf pods id).announce pod.dockerId) := by
    unfold Registry.note
    dsimp only
    rw [show pod.containerId? = some id from hid]
  rw [hnote]
  unfold reportPodSpec
  rw [wp_bind, wp_of_run (insertPodSpec_of_free h.free hid), hfresh, wp_ite, if_pos (by decide),
    wp_bind, wp_of_run (run_containerIdOf hid), wp_bind]
  by_cases hc : (phaseOf pods id).isConnected = true
  · -- the container is there: its newest instance gets the docker id at once
    have hinst := hold.instances
    have hagent := hold.agent
    rw [if_pos hc] at hinst hagent
    obtain ⟨sc, hsc, -⟩ := hinst
    obtain ⟨a, ha⟩ := hagent
    rw [wp_of_run (matcher_of_connected (m := m.withPodSpec id pod.dockerId) hsc ha), wp_pure]
    refine h.withPodSpec hphase hfresh hp hknown (fun id' hne => sameAt_setDockerId hne) rfl rfl ?_
    rw [Phase.announce_of_connected hphase hc]
    exact holds_live (m := m.withPodSpec id pod.dockerId) hsc ha hpods
  · -- the thread waits, and the two halves stay apart for now
    have hinst := hold.instances
    have hagent := hold.agent
    rw [if_neg hc] at hinst hagent
    have hafter : (m.withPodSpec id pod.dockerId).Represents
        (pods.insert id ((phaseOf pods id).announce pod.dockerId)) := by
      refine h.withPodSpec hphase hfresh hp hknown (fun id' hne => ⟨rfl, rfl, rfl⟩) rfl rfl
        ⟨?_, ?_, ?_⟩
      · rw [Phase.isConnected_announce, if_neg hc]
        exact hinst
      · rw [Phase.isConnected_announce, if_neg hc]
        exact hagent
      · rw [hp]
        exact hpods
    unfold wp
    rw [matcher_of_unconnected (m := m.withPodSpec id pod.dockerId) hagent]
    exact hafter

theorem Represents.afterDelete (h : m.Represents pods) (hlive : phaseOf pods id = .live d)
    {sc : SubContainer} (hsc : m.ec.subcontainers.lookup id = some [sc]) :
    (m.afterDelete d id sc).Represents (pods.insert id .absent) := by
  refine h.insert (fun id' hne => ⟨?_, ?_, ?_⟩) ⟨?_, ?_, ?_⟩ (fun d' id' => ?_) rfl nofun
  · rw [lookup_afterDelete hsc, if_neg hne]
  · rw [scAcMap_afterDelete, AList.lookup_erase_ne hne]
  · exact AList.lookup_erase_ne hne
  · show (m.afterDelete d id sc).ec.subcontainers.lookup id = none
    rw [lookup_afterDelete hsc, if_pos rfl, if_pos rfl]
  · show (m.afterDelete d id sc).ec.scAcMap.lookup id = none
    rw [scAcMap_afterDelete, AList.lookup_erase]
  · exact AList.lookup_erase ..
  · show (m.dockerToSubContainer.erase d).lookup d' = some id' ↔ _
    rw [UnorderedMap.lookup_erase']
    by_cases hd' : d' = d
    · subst hd'
      rw [if_pos rfl, h.lookup_live hlive]
      by_cases hid' : id' = id
      · simp [hid', Phase.dockerId?]
      · simp [hid', Ne.symm hid']
    · rw [if_neg hd']
      by_cases hid' : id' = id
      · subst hid'
        rw [if_pos rfl, h.dockerIds, hlive]
        simp [Phase.dockerId?, Ne.symm hd']
      · rw [if_neg hid']

theorem Represents.deletion (h : m.Represents pods)
    (hen : (⟨m, pods⟩ : Registry).enabled (.deletePod d)) :
    wp (Manager.deletePod d) (fun _ m' => m'.Represents (Registry.note pods (.deletePod d)))
      (fun _ _ => False) m := by
  unfold Registry.note
  dsimp only
  cases hfind : pods.keys.find? fun id => phaseOf pods id = .live d with
  | some id =>
    have hlive : phaseOf pods id = .live d := by simpa using List.find?_some hfind
    obtain ⟨sc, hsc, -⟩ := h.live_instance hlive
    rw [wp_of_run (h.deletePod hlive hsc)]
    exact h.afterDelete hlive hsc
  | none =>
    -- no pod of that name is live, and none is on its way
    have hnone : m.dockerToSubContainer.lookup d = none := by
      refine h.fresh fun id hid hd => ?_
      have hlive := hen id hid hd
      exact absurd (decide_eq_true hlive) (List.find?_eq_none.mp hfind id hid)
    have hunknown : (m.getScIdFromDockerId d).cgroupId = 0 := by
      unfold getScIdFromDockerId
      rw [hnone]
      rfl
    rw [wp_of_run (deletePod_of_unknown hunknown)]
    exact h

theorem Represents.next {e : Registry.Event} {s s' : Registry}
    (h : s.manager.Represents s.pods) (hen : s.enabled e) (hnext : Registry.next e s = some s') :
    s'.manager.Represents s'.pods := by
  obtain ⟨m', hm, rfl⟩ := Option.map_eq_some_iff.mp hnext
  refine resume_of_wp (I := fun m' => m'.Represents (Registry.note s.pods e)) ?_ hm
  cases e with
  | connect env req hostIp clifd =>
    exact (wp_bind ..).mpr (wp_mono (h.connect hen) (fun _ _ hm => hm) fun _ _ he => he.elim)
  | podSpec pod => exact (wp_bind ..).mpr (h.podSpec hen)
  | matchDockerId scId dockerId =>
    exact wp_mono (h.matchDockerId hen) (fun _ _ hm => hm) fun _ _ he => he.elim
  | deletePod dockerId =>
    exact (wp_bind ..).mpr (wp_mono (h.deletion hen) (fun _ _ hm => hm) fun _ _ he => he.elim)
  | lookup id =>
    have hagent := (h.holds id).agent
    rw [if_pos (show (phaseOf s.pods id).isConnected = true from hen)] at hagent
    obtain ⟨a, ha⟩ := hagent
    have hjoin : s.manager.ec.agent? id = some a := Option.join_eq_some_iff.mpr ha
    refine (wp_bind ..).mpr ?_
    rw [wp_of_run (getCorresAgentClient_of_agent hjoin)]
    exact h

theorem Unregistered.represents (h : m.Unregistered) : m.Represents ∅ where
  holds id := ⟨by rw [h.subcontainers]; rfl, by rw [h.scAcMap]; rfl, by rw [h.deployedPods]; rfl⟩
  dockerIds d id := by rw [h.dockerToSubContainer]; exact iff_of_false nofun nofun
  known id := nofun
  free := h.free

end Manager

/-- **The registries correspond whenever no registration is half done, and every live pod is
refunded exactly once.** -/
theorem Registry.correspond_of_run (m : Manager) (hm : m.Unregistered) (s : Registry)
    (hrun : Registry.system.Run (.start m) s) :
    (s.Settled → s.manager.Correspond) ∧
      ∀ d id, phaseOf s.pods id = .live d → s.manager.RefundsOnce d id := by
  have h : s.manager.Represents s.pods :=
    System.invariant (I := fun s => s.manager.Represents s.pods) hm.represents
      (fun _ _ _ ht hen hnext => ht.next hen hnext) hrun
  exact ⟨fun hs => h.correspond hs, fun d id hlive => h.refundsOnce hlive⟩

/-- One pod in each order, a third on the id of the first once that is deleted. -/
def Registry.threePods : List Registry.Event :=
  [.podSpec (specOf 1 "a"), .connect (.uniform 0 0 0 0 0) (msgOf 1 initReq 1000 0) node.addr 7,
    .connect (.uniform 0 0 0 0 0) (msgOf 2 initReq 1000 0) node.addr 8,
    .matchDockerId ⟨1, node⟩ "a", .podSpec (specOf 2 "b"), .deletePod "a", .deletePod "a",
    .connect (.uniform 0 0 0 0 0) (msgOf 1 initReq 1000 0) node.addr 9,
    .lookup ⟨1, node⟩, .podSpec (specOf 1 "c")]

theorem Registry.correspond_of_threePods :
    ∃ s, Registry.system.Run (.start (.started oneAgent ⟨1000, 100⟩)) s ∧ s.Settled ∧
      s.manager.Correspond ∧ s.manager.RefundsOnce "c" ⟨1, node⟩ := by
  have hreplay : ((Registry.system.replay threePods (.start (.started oneAgent ⟨1000, 100⟩))).any
      fun s => s.Settled ∧ phaseOf s.pods ⟨1, node⟩ = .live "c") = true := by
    decide +kernel
  obtain ⟨s, hrun, hs⟩ := System.exists_run_of_replay hreplay
  obtain ⟨hsettled, hlive⟩ := of_decide_eq_true hs
  have h := correspond_of_run _ ⟨rfl, rfl, rfl, rfl, rfl⟩ s hrun
  exact ⟨s, hrun, hsettled, h.1 hsettled, h.2 _ _ hlive⟩

end EcGcm
