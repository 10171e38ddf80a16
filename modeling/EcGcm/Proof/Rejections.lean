import EcGcm.Proof.QuotaFloor

/-!
# Requests that are turned down

Two requests can be found to be impossible, and in both the finding comes too late.

* A container that connects from a node without an agent is charged, inserted and counted into the
  fair share before the agent is looked up. The error branch logs. If the container was given less
  than it asked for, the handler goes on to push the quota and waits for a flag that nobody will
  ever set.
* A pod spec whose docker id is taken has been entered in `deployedPods` before the docker id is
  tried. Deleting the pod that holds the docker id removes that entry only if both specs name the
  same container (`lookup_deployedPods_after_delete`).
-/

set_option autoImplicit false

namespace EcGcm

open Handler

namespace Manager

open ElasticContainer

variable {m m' : Manager} {env : Env} {req : Msg} {ip : UInt32} {fd : Int} {id : ContainerId}

/-! ## A node without an agent -/

/-- A failed admission: the handler returns, and the CPU counters, the share and the containers are
as they were. -/
structure FailsCleanly (m : Manager) (o : Outcome Manager (AllocRet × Msg)) : Prop where
  returned : o.Returned
  unallocatedRt : o.state.ec.cpu.unallocatedRt = m.ec.cpu.unallocatedRt
  allocRt : o.state.ec.cpu.allocRt = m.ec.cpu.allocRt
  overrun : o.state.ec.cpu.overrun = m.ec.cpu.overrun
  fairCpuShare : o.state.ec.fairCpuShare = m.ec.fairCpuShare
  subcontainers : o.state.ec.subcontainers = m.ec.subcontainers

/-- The newest instance of `id` has never been marked as inserted. -/
def Stranded (m : Manager) (id : ContainerId) : Prop :=
  ∃ sc, m.ec.back? id = some sc ∧ sc.inserted = false

/-- Whoever connects is registered, agent or not. -/
theorem not_failsCleanly : ¬ FailsCleanly m ((handleAddCgroupToEc env req ip fd).run m) := by
  intro h
  have hadmitted : Admitted m ⟨req.cgroupId, .fromNet ip⟩ (m.admittedQuota req.rsrcAmnt)
    ((handleAddCgroupToEc env req ip fd).run m).state := admitted_state
  have hnew := hadmitted.newest
  rw [congrFun (quotas_congr h.subcontainers)] at hnew
  -- a queue is not one longer than itself
  have hlen := congrArg (fun q => (q.getD []).length) hnew
  simp only [Option.getD_some, List.length_append, List.length_cons, List.length_nil] at hlen
  omega

/-- What is asked for is given as it is exactly when the pool has it; otherwise a push follows. -/
theorem wp_determineQuotaForNewPod_flag {reqQuota : UInt64} {Q : Bool × UInt64 → Manager → Prop}
    {E : Halt → Manager → Prop}
    (hQ : ∀ quota (cpu : Global.Cpu),
      Q (decide (¬ reqQuota ≤ m.ec.cpu.unallocatedRt), quota)
        { m with ec := { m.ec with cpu := cpu } }) :
    wp (determineQuotaForNewPod reqQuota) Q E m := by
  unfold determineQuotaForNewPod
  rw [wp_bind, wp_get, wp_ite]
  split
  · rename_i hle
    rw [decide_eq_false (not_not.mpr hle)] at hQ
    exact hQ _ _
  · rename_i hle
    rw [decide_eq_true hle] at hQ
    rw [wp_ite]
    split
    · exact hQ _ _
    · exact hQ _ _

theorem back?_withInstance (m : Manager) (cpu : Global.Cpu) (sc : SubContainer) :
    (m.withInstance cpu sc).ec.back? sc.cId = some sc := by
  have hinsert : (({ m.ec with cpu := cpu } : ElasticContainer).insertSc sc).back? sc.cId =
      some sc := back?_insertSc
  unfold withInstance ElasticContainer.back?
  rw [subcontainers_updateFairCpuShare]
  exact hinsert

theorem wp_init_without_agent (hagent : m.agentsDb.lookup (.fromNet ip) = none) :
    wp (handleAddCgroupToEc env req ip fd)
      (fun _ m' => req.rsrcAmnt ≤ m.ec.cpu.unallocatedRt ∧ m'.Stranded ⟨req.cgroupId, .fromNet ip⟩)
      (fun _ m' => ¬ req.rsrcAmnt ≤ m.ec.cpu.unallocatedRt ∧
        m'.Stranded ⟨req.cgroupId, .fromNet ip⟩) m := by
  unfold handleAddCgroupToEc
  rw [wp_bind]
  refine wp_determineQuotaForNewPod_flag fun quota cpu => ?_
  simp only [wp_bind, modifyEc, wp_modify]
  have hb := m.back?_withInstance cpu (.new req.cgroupId ip fd quota req.request env.now)
  unfold linkAgent
  rw [wp_bind, wp_get]
  have hlookup : m.agentsDb.lookup
      (SubContainer.new req.cgroupId ip fd quota req.request env.now).cId.serverIp = none := hagent
  dsimp only
  rw [hlookup]
  -- the missing agent is only logged; what decides is whether a push follows
  by_cases hle : req.rsrcAmnt ≤ m.ec.cpu.unallocatedRt
  · rw [decide_eq_false (not_not.mpr hle)]
    exact ⟨hle, _, hb, rfl⟩
  · rw [decide_eq_true hle]
    show wp (backOf _ >>= _) _ _ _
    rw [wp_bind]
    refine (wp_backOf hb).mpr ((wp_bind ..).mpr ?_)
    -- the instance is new, so the push waits
    refine wp_setScQuotaSyscall (fun _ => ⟨hle, _, hb, rfl⟩) (fun _ _ hins _ => ?_)
      (fun _ _ _ hins _ => ?_)
    · cases hins
    · cases hins

/-- **A connection from a node without an agent never fails cleanly.** It is registered whatever it
asks for, is never marked as inserted, and blocks its own handler unless the pool had all it asked
for. -/
theorem init_without_agent_never_clean (hagent : m.agentsDb.lookup (.fromNet ip) = none) :
    ¬ FailsCleanly m ((handleAddCgroupToEc env req ip fd).run m) ∧
    ((handleAddCgroupToEc env req ip fd).run m).state.Stranded ⟨req.cgroupId, .fromNet ip⟩ ∧
    (((handleAddCgroupToEc env req ip fd).run m).Returned ↔
      req.rsrcAmnt ≤ m.ec.cpu.unallocatedRt) := by
  have hwp : wp (handleAddCgroupToEc env req ip fd) _ _ m := wp_init_without_agent hagent
  refine ⟨not_failsCleanly, ?_, ?_⟩
  · refine wp_state_iff.mp (wp_mono hwp (fun _ _ h => h.2) fun _ _ h => h.2)
  · unfold wp at hwp
    cases hrun : (handleAddCgroupToEc env req ip fd).run m with
    | ret a t =>
      rw [hrun] at hwp
      exact ⟨fun _ => hwp.1, fun _ => ⟨a, t, rfl⟩⟩
    | halt e t =>
      rw [hrun] at hwp
      refine ⟨?_, fun hle => absurd hle hwp.1⟩
      rintro ⟨a, t', hret⟩
      cases hret

/-- Two containers of one node have two cores of three. Then a container of a second node, which
has no agent, asks for two cores as well. -/
theorem init_without_agent_of_second_node :
    ∃ m, gcm.Run (.new oneAgent) m ∧ m.ec.subcontainers.keys.length = 2 ∧
      m.agentsDb.lookup (.fromNet 33554442) = none ∧
      ¬ FailsCleanly m ((handleAddCgroupToEc creditWorld (msgOf 1 initReq 200000000 0) 33554442
        9).run m) ∧
      ¬ ((handleAddCgroupToEc creditWorld (msgOf 1 initReq 200000000 0) 33554442
        9).run m).Returned := by
  have hreplay : ((gcm.replay [.appSpec ⟨3000, 100⟩, deliver 0 (msgOf 1 initReq 150000000 0),
      deliver 0 (msgOf 2 initReq 50000000 0)] (.new oneAgent)).any fun m =>
      m.ec.subcontainers.keys.length = 2 ∧ m.agentsDb.lookup (.fromNet 33554442) = none ∧
        ¬ (200000000 : UInt64) ≤ m.ec.cpu.unallocatedRt) = true := by
    decide +kernel
  obtain ⟨m, hrun, htest⟩ := System.exists_run_of_replay hreplay
  obtain ⟨htwo, hagent, hgt⟩ := of_decide_eq_true htest
  have hnever := @init_without_agent_never_clean m creditWorld (msgOf 1 initReq 200000000 0)
    33554442 9 hagent
  exact ⟨m, hrun, htwo, hagent, hnever.1, fun hret => hgt (hnever.2.2.mp hret)⟩

/-- A container that asks for two cores where there is one blocks the handler. -/
theorem init_without_agent_hangs :
    ¬ ∀ (db : UnorderedMap Ip4Addr AgentClient) (m : Manager) (env : Env) (req : Msg)
      (ip : UInt32) (fd : Int), gcm.Run (.new db) m →
      m.agentsDb.lookup (.fromNet ip) = none →
      FailsCleanly m ((handleAddCgroupToEc env req ip fd).run m) := by
  intro hclaim
  have hreplay : ((gcm.replay [.appSpec ⟨1000, 100⟩] (.new ∅)).any fun m =>
      decide (m.agentsDb.lookup (.fromNet node.addr) = none) &&
      ((handleAddCgroupToEc creditWorld (msgOf 1 initReq 200000000 0) node.addr 7).run
        m).result.isNone) = true := by
    decide +kernel
  obtain ⟨m, hrun, htest⟩ := System.exists_run_of_replay hreplay
  obtain ⟨hagent, hnone⟩ := (Bool.and_eq_true ..).mp htest
  have hret := (hclaim ∅ m creditWorld (msgOf 1 initReq 200000000 0) node.addr 7 hrun
    (of_decide_eq_true hagent)).returned
  rw [Outcome.returned_iff_result, Option.isSome_iff_ne_none] at hret
  exact hret (Option.isNone_iff_eq_none.mp hnone)

/-! ## A docker id that is taken -/

variable {pod : ExportPodSpec} {dockerId : String}

/-- The docker ids of the instances registered under an id, oldest first. -/
def dockerIds (m : Manager) (id : ContainerId) : Option (List String) :=
  (m.ec.subcontainers.lookup id).map (List.map (·.dockerId))

/-- A rejected spec: the reply is `fail`, and no registry has changed. -/
structure RejectsCleanly (m : Manager) (o : Outcome Manager String) : Prop where
  reply : o.result = some fail
  deployedPods : o.state.deployedPods = m.deployedPods
  dockerToSubContainer : o.state.dockerToSubContainer = m.dockerToSubContainer
  dockerIds : o.state.dockerIds = m.dockerIds

/-- What becomes of a spec whose docker id is taken. -/
theorem reportPodSpec_of_taken (hfree : m.depPodLock = false) (hpod : pod.containerId? = some id)
    (htaken : (m.dockerToSubContainer.lookup pod.dockerId).isSome = true) :
    (reportPodSpec pod).run m = .ret fail (m.withPodSpec id pod.dockerId) := by
  unfold reportPodSpec
  rw [run_bind_of_ret (insertPodSpec_of_free hfree hpod), if_pos htaken]
  rfl

/-- And one that does not get as far as the docker id has no reply. -/
theorem reportPodSpec_of_halt {e : Halt} (hinsert : (insertPodSpec pod).run m = .halt e m') :
    ((reportPodSpec pod).run m).result = none ∧ ¬ RejectsCleanly m ((reportPodSpec pod).run m) := by
  have hrun : (reportPodSpec pod).run m = .halt e m' := run_bind_of_halt hinsert
  rw [hrun]
  refine ⟨rfl, fun h => ?_⟩
  cases h.reply

theorem deployedPods_withPodSpec_ne :
    (m.withPodSpec id dockerId).deployedPods ≠ m.deployedPods := by
  intro heq
  have hlook := congrArg (fun pods => AList.lookup id pods) heq
  simp only [withPodSpec, AList.lookup_insert] at hlook
  rw [← hlook] at hlook
  have hlen := congrArg (fun q => (q.getD []).length) hlook
  simp only [Option.getD_some, List.length_append, List.length_cons, List.length_nil] at hlen
  omega

/-- **A rejected spec always leaves an entry.** The reply is `fail` for every address that parses,
unless the RPC has to wait for `dep_pod_lock`; and whoever gets this reply has changed
`deployedPods`. -/
theorem rejected_spec_never_clean
    (htaken : (m.dockerToSubContainer.lookup pod.dockerId).isSome = true) :
    ((reportPodSpec pod).run m).result =
      (if m.depPodLock then none else pod.containerId?.map fun _ => fail) ∧
    ¬ RejectsCleanly m ((reportPodSpec pod).run m) := by
  cases hlocked : m.depPodLock with
  | true => exact reportPodSpec_of_halt (insertPodSpec_of_locked hlocked)
  | false =>
    cases hpod : pod.containerId? with
    | none => exact reportPodSpec_of_halt (insertPodSpec_of_unparsable hlocked hpod)
    | some id =>
      rw [reportPodSpec_of_taken hlocked hpod htaken]
      exact ⟨rfl, fun h => deployedPods_withPodSpec_ne h.deployedPods⟩

/-- Deleting the pod that holds the docker id removes the entry of the rejected spec exactly when
both name the same container. -/
theorem lookup_deployedPods_after_delete {id₀ : ContainerId} {front : SubContainer}
    {rest : List SubContainer} (hfree : m.depPodLock = false) (hpod : pod.containerId? = some id)
    (htaken : m.dockerToSubContainer.lookup pod.dockerId = some id₀) (hne : id₀.cgroupId ≠ 0)
    (hq : m.ec.subcontainers.lookup id₀ = some (front :: rest)) :
    (((Manager.deletePod pod.dockerId).run
      ((reportPodSpec pod).run m).state).state.deployedPods.lookup id = none) ↔ id = id₀ := by
  rw [reportPodSpec_of_taken hfree hpod (by rw [htaken]; rfl)]
  have hid : (m.withPodSpec id pod.dockerId).getScIdFromDockerId pod.dockerId = id₀ := by
    unfold getScIdFromDockerId withPodSpec
    rw [UnorderedMap.emplace_of_lookup htaken, htaken]
    rfl
  have hdelete : (Manager.deletePod pod.dockerId).run (m.withPodSpec id pod.dockerId) = _ :=
    deletePod_of_front hid hne hq hfree
  show ((Manager.deletePod pod.dockerId).run
    (m.withPodSpec id pod.dockerId)).state.deployedPods.lookup id = none ↔ id = id₀
  rw [hdelete]
  show ((m.withPodSpec id pod.dockerId).deployedPods.erase id₀).lookup id = none ↔ id = id₀
  rw [UnorderedMap.lookup_erase']
  split
  · rename_i heq
    exact ⟨fun _ => heq, fun _ => rfl⟩
  · rename_i hdiff
    unfold withPodSpec
    dsimp only
    rw [AList.lookup_insert]
    constructor
    · intro h
      cases h
    · intro h
      exact absurd h hdiff

/-- The docker id `a` is held by container 1. -/
def takenRun : List Event := [.appSpec ⟨1000, 100⟩, connect 1 7, .podSpec (specOf 1 "a")]

/-- The same spec a second time. -/
theorem rejected_spec_again :
    ∃ m, gcm.Run (.new oneAgent) m ∧ ((reportPodSpec (specOf 1 "a")).run m).result = some fail ∧
      ¬ RejectsCleanly m ((reportPodSpec (specOf 1 "a")).run m) := by
  have hreplay : ((gcm.replay takenRun (.new oneAgent)).any fun m =>
      (m.dockerToSubContainer.lookup "a").isSome ∧ m.depPodLock = false) = true := by
    decide +kernel
  obtain ⟨m, hrun, htest⟩ := System.exists_run_of_replay hreplay
  obtain ⟨htaken, hfree⟩ := of_decide_eq_true htest
  have hpod : (specOf 1 "a").containerId?.map (fun _ => fail) = some fail := by decide +kernel
  have hnever := @rejected_spec_never_clean m (specOf 1 "a") htaken
  rw [hfree] at hnever
  exact ⟨m, hrun, hnever.1.trans hpod, hnever.2⟩

/-- The spec of container 2 with the docker id of container 1 leaves an entry under container 2,
which is still there when `a` has been deleted. -/
theorem rejected_spec_leaves_entry :
    ∃ m, gcm.Run (.new oneAgent) m ∧ (m.dockerToSubContainer.lookup "a").isSome = true ∧
      ¬ RejectsCleanly m ((reportPodSpec (specOf 2 "a")).run m) ∧
      ((Manager.deletePod "a").run
        ((reportPodSpec (specOf 2 "a")).run m).state).state.deployedPods.lookup ⟨2, node⟩ =
          some ["a"] := by
  have hreplay : ((gcm.replay takenRun (.new oneAgent)).any fun m =>
      decide ((m.dockerToSubContainer.lookup "a").isSome = true ∧
        ((reportPodSpec (specOf 2 "a")).run m).state.deployedPods.lookup ⟨2, node⟩ ≠
          m.deployedPods.lookup ⟨2, node⟩ ∧
        ((Manager.deletePod "a").run
          ((reportPodSpec (specOf 2 "a")).run m).state).state.deployedPods.lookup ⟨2, node⟩ =
            some ["a"])) = true := by
    decide +kernel
  obtain ⟨m, hrun, htest⟩ := System.exists_run_of_replay hreplay
  obtain ⟨htaken, hchanged, hstale⟩ := of_decide_eq_true htest
  refine ⟨m, hrun, htaken, fun hclean => hchanged ?_, hstale⟩
  rw [hclean.deployedPods]

end Manager

end EcGcm
