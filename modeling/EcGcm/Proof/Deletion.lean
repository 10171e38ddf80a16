import EcGcm.Proof.Queues

/-!
# What the deployer's calls do

Each call as one equation. The four helpers of `DeletePod` each report a failure of their own,
but none of these stops the deletion, and erasing what is not there changes nothing. So a deletion
that gets as far as the front of the queue has one effect, `Manager.afterDelete`, whatever the
helpers said; unless it has to wait for `dep_pod_lock`, and stays where it is
(`Manager.halfDeleted`).
-/

set_option autoImplicit false

namespace EcGcm.Manager

open Handler

variable {m : Manager} {id scId : ContainerId} {dockerId : String} {front : SubContainer}
  {pod : ExportPodSpec}

/-! ## Registration -/

/-- The state `insertPodSpec` leaves. A docker id that is taken keeps its container, but the
queue has grown all the same. -/
def withPodSpec (m : Manager) (scId : ContainerId) (dockerId : String) : Manager :=
  { m with
    deployedPods := m.deployedPods.insert scId
      ((m.deployedPods.lookup scId).getD [] ++ [dockerId])
    dockerToSubContainer := UnorderedMap.emplace m.dockerToSubContainer dockerId scId }

/-- `dep_pod_lock` has been left locked. -/
def podLocked (m : Manager) : Manager := { m with depPodLock := true }

theorem run_containerIdOf (hpod : pod.containerId? = some scId) :
    (containerIdOf pod).run m = .ret scId m := by
  unfold containerIdOf
  rw [hpod]
  rfl

theorem insertPodSpec_of_locked (hlocked : m.depPodLock = true) :
    (insertPodSpec pod).run m = .halt .hang m :=
  run_bind_of_halt (run_locked_of_taken hlocked)

/-- The exception passes by the `unlock`. -/
theorem insertPodSpec_of_unparsable (hfree : m.depPodLock = false)
    (hpod : pod.containerId? = none) :
    (insertPodSpec pod).run m = .halt .throw m.podLocked := by
  have hthrow : (insertDeployedPod pod).run m = .halt .throw m := by
    unfold insertDeployedPod containerIdOf
    rw [hpod]
    rfl
  refine run_bind_of_halt ?_
  rw [run_locked_of_free hfree, hthrow]
  rfl

theorem insertPodSpec_of_free (hfree : m.depPodLock = false) (hpod : pod.containerId? = some scId) :
    (insertPodSpec pod).run m =
      .ret (if (m.dockerToSubContainer.lookup pod.dockerId).isSome then -3 else 0)
      (m.withPodSpec scId pod.dockerId) := by
  have hinsert : (insertDeployedPod pod).run m = .ret ⟨⟩ { m with
      deployedPods := m.deployedPods.insert scId
        ((m.deployedPods.lookup scId).getD [] ++ [pod.dockerId]) } := by
    unfold insertDeployedPod
    rw [run_bind_of_ret (run_containerIdOf hpod), run_modify]
    cases m.deployedPods.lookup scId <;> rfl
  have hlocked : (locked (·.depPodLock) podLocked (insertDeployedPod pod)).run m = .ret ⟨⟩ { m with
      deployedPods := m.deployedPods.insert scId
        ((m.deployedPods.lookup scId).getD [] ++ [pod.dockerId]) } := by
    rw [run_locked_of_free hfree, hinsert]
    rfl
  unfold insertPodSpec withPodSpec
  refine (run_bind_of_ret hlocked).trans ?_
  rw [run_bind_of_ret (run_containerIdOf hpod), run_bind_of_ret run_get]
  dsimp only
  cases h : m.dockerToSubContainer.lookup pod.dockerId with
  | some a =>
    rw [UnorderedMap.emplace_of_lookup h]
    rfl
  | none =>
    rw [UnorderedMap.emplace_of_lookup_none h]
    rfl

/-! ## Deletion -/

/-- The state `DeletePod` leaves: `front` was the oldest instance of `id`. -/
def afterDelete (m : Manager) (dockerId : String) (id : ContainerId) (front : SubContainer) :
    Manager :=
  let ec := ({ m.ec with scAcMap := m.ec.scAcMap.erase id } : ElasticContainer)
  let ec := (ec.ecDeleteFromSubcontainersMap id).2.updateFairCpuShare
  { m with
    ec := { ec with
      cpu := (ec.cpu.decrAllocRt front.quota).incrUnallocatedRt front.quota
      mem := (ec.mem.incrUnallocatedMemoryInPages
        front.memLimitInPages).decrAllocatedMemoryInPages front.memLimitInPages.toInt64 }
    deployedPods := m.deployedPods.erase id
    dockerToSubContainer := m.dockerToSubContainer.erase dockerId }

/-- The state `DeletePod` stops in when `dep_pod_lock` is locked: two registries have lost the
container, and nothing has been refunded. -/
def halfDeleted (m : Manager) (id : ContainerId) : Manager :=
  let ec := ({ m.ec with scAcMap := m.ec.scAcMap.erase id } : ElasticContainer)
  { m with ec := (ec.ecDeleteFromSubcontainersMap id).2 }

theorem lookup_afterDelete {id' : ContainerId} {rest : List SubContainer}
    (hq : m.ec.subcontainers.lookup id = some (front :: rest)) :
    (m.afterDelete dockerId id front).ec.subcontainers.lookup id' =
      if id' = id then (if rest = [] then none else some rest)
      else m.ec.subcontainers.lookup id' := by
  unfold afterDelete
  dsimp only
  rw [ElasticContainer.subcontainers_updateFairCpuShare]
  exact ElasticContainer.lookup_delete hq

theorem scAcMap_afterDelete :
    (m.afterDelete dockerId id front).ec.scAcMap = m.ec.scAcMap.erase id := by
  unfold afterDelete
  dsimp only
  rw [ElasticContainer.scAcMap_updateFairCpuShare, ElasticContainer.scAcMap_delete]

theorem cpu_afterDelete : (m.afterDelete dockerId id front).ec.cpu =
    (m.ec.cpu.decrAllocRt front.quota).incrUnallocatedRt front.quota := by
  unfold afterDelete
  dsimp only
  rw [ElasticContainer.cpu_updateFairCpuShare, ElasticContainer.cpu_delete]

theorem mem_afterDelete : (m.afterDelete dockerId id front).ec.mem =
    (m.ec.mem.incrUnallocatedMemoryInPages
      front.memLimitInPages).decrAllocatedMemoryInPages front.memLimitInPages.toInt64 := by
  unfold afterDelete
  dsimp only
  rw [ElasticContainer.mem_updateFairCpuShare, ElasticContainer.mem_delete]

theorem cpu_halfDeleted : (m.halfDeleted id).ec.cpu = m.ec.cpu := ElasticContainer.cpu_delete

theorem mem_halfDeleted : (m.halfDeleted id).ec.mem = m.ec.mem := ElasticContainer.mem_delete

theorem scAcMap_halfDeleted : (m.halfDeleted id).ec.scAcMap = m.ec.scAcMap.erase id :=
  ElasticContainer.scAcMap_delete

theorem lookup_halfDeleted {id' : ContainerId} {rest : List SubContainer}
    (hq : m.ec.subcontainers.lookup id = some (front :: rest)) :
    (m.halfDeleted id).ec.subcontainers.lookup id' =
      if id' = id then (if rest = [] then none else some rest)
      else m.ec.subcontainers.lookup id' := ElasticContainer.lookup_delete hq

/-- The `thanks` field of the reply: all four registries had the pod. -/
def deleteReply (m : Manager) (dockerId : String) (id : ContainerId) : String :=
  if (m.ec.scAcMap.lookup id).isSome ∧ (m.deployedPods.lookup id).isSome ∧
      (m.dockerToSubContainer.lookup dockerId).isSome then success else fail

theorem deleteFromScAcMap_eq :
    (deleteFromScAcMap id).run m = .ret (if (m.ec.scAcMap.lookup id).isSome then 0 else -1)
      { m with ec := { m.ec with scAcMap := m.ec.scAcMap.erase id } } := by
  unfold deleteFromScAcMap
  rw [run_bind_of_ret run_get]
  cases h : m.ec.scAcMap.lookup id with
  | some a => rfl
  | none =>
    rw [UnorderedMap.erase_of_lookup_none h]
    rfl

theorem deleteFromDeployedPodsMap_of_free (hfree : m.depPodLock = false) :
    (deleteFromDeployedPodsMap id).run m = .ret
      (if (m.deployedPods.lookup id).isSome then 0 else -1)
      { m with deployedPods := m.deployedPods.erase id } := by
  unfold deleteFromDeployedPodsMap
  rw [run_bind_of_ret run_get, if_neg (Bool.eq_false_iff.mp hfree)]
  cases h : m.deployedPods.lookup id with
  | some a => rfl
  | none =>
    rw [UnorderedMap.erase_of_lookup_none h]
    rfl

theorem deleteFromDockerIdScMap_eq :
    (deleteFromDockerIdScMap dockerId).run m =
      .ret (if (m.dockerToSubContainer.lookup dockerId).isSome then 0 else -1)
      { m with dockerToSubContainer := m.dockerToSubContainer.erase dockerId } := by
  unfold deleteFromDockerIdScMap
  rw [run_bind_of_ret run_get]
  cases h : m.dockerToSubContainer.lookup dockerId with
  | some a => rfl
  | none =>
    rw [UnorderedMap.erase_of_lookup_none h]
    rfl

/-- A docker id without a container is refused. -/
theorem deletePod_of_unknown (hid : (m.getScIdFromDockerId dockerId).cgroupId = 0) :
    (deletePod dockerId).run m = .ret (.cancelled, fail) m := by
  unfold deletePod
  rw [run_bind_of_ret run_get, if_pos hid]
  rfl

theorem getSubcontainerFront_of_absent (hq : m.ec.subcontainers.lookup id = none) :
    (getSubcontainerFront id).run m = .halt .exit m := by
  unfold getSubcontainerFront
  rw [run_bind_of_ret run_get, hq]
  rfl

theorem getSubcontainerFront_of_cons {rest : List SubContainer}
    (hq : m.ec.subcontainers.lookup id = some (front :: rest)) :
    (getSubcontainerFront id).run m = .ret front m := by
  unfold getSubcontainerFront
  rw [run_bind_of_ret run_get, hq]
  rfl

/-- A container that never connected, or is gone already, ends the process. -/
theorem deletePod_of_absent (hid : m.getScIdFromDockerId dockerId = id) (hne : id.cgroupId ≠ 0)
    (hq : m.ec.subcontainers.lookup id = none) : (deletePod dockerId).run m = .halt .exit m := by
  subst hid
  unfold deletePod
  rw [run_bind_of_ret run_get, if_neg hne]
  exact run_bind_of_halt (getSubcontainerFront_of_absent hq)

theorem deletePod_of_empty (hid : m.getScIdFromDockerId dockerId = id) (hne : id.cgroupId ≠ 0)
    (hq : m.ec.subcontainers.lookup id = some []) :
    (deletePod dockerId).run m = .halt .undef m := by
  subst hid
  have hfront : (getSubcontainerFront (m.getScIdFromDockerId dockerId)).run m =
      .halt .undef m := by
    unfold getSubcontainerFront
    rw [run_bind_of_ret run_get, hq]
    rfl
  unfold deletePod
  rw [run_bind_of_ret run_get, if_neg hne]
  exact run_bind_of_halt hfront

theorem deleteFromSubcontainersMap_eq {q : List SubContainer}
    (hq : m.ec.subcontainers.lookup id = some q) :
    (deleteFromSubcontainersMap id).run m =
      .ret 0 { m with ec := (m.ec.ecDeleteFromSubcontainersMap id).2 } := by
  have hret : (m.ec.ecDeleteFromSubcontainersMap id).1 = 0 := by
    unfold ElasticContainer.ecDeleteFromSubcontainersMap
    rw [hq]
    dsimp only
    split <;> rfl
  rw [← hret]
  rfl

/-- A deletion that has to wait. -/
theorem deletePod_of_locked {rest : List SubContainer}
    (hid : m.getScIdFromDockerId dockerId = id) (hne : id.cgroupId ≠ 0)
    (hq : m.ec.subcontainers.lookup id = some (front :: rest)) (hlocked : m.depPodLock = true) :
    (deletePod dockerId).run m = .halt .hang (m.halfDeleted id) := by
  subst hid
  unfold deletePod
  rw [run_bind_of_ret run_get, if_neg hne, run_bind_of_ret (getSubcontainerFront_of_cons hq),
    run_bind_of_ret deleteFromScAcMap_eq]
  refine (run_bind_of_ret (deleteFromSubcontainersMap_eq (q := front :: rest) ?_)).trans ?_
  · exact hq
  · refine run_bind_of_halt ?_
    unfold deleteFromDeployedPodsMap
    rw [run_bind_of_ret run_get, if_pos hlocked]
    rfl

/-- **What a deletion does.** -/
theorem deletePod_of_front {rest : List SubContainer}
    (hid : m.getScIdFromDockerId dockerId = id) (hne : id.cgroupId ≠ 0)
    (hq : m.ec.subcontainers.lookup id = some (front :: rest)) (hfree : m.depPodLock = false) :
    (deletePod dockerId).run m =
      .ret (.ok, m.deleteReply dockerId id) (m.afterDelete dockerId id front) := by
  subst hid
  have hreply : ∀ a c d : Bool,
      (if (if a then (0 : Int) else -1) = 0 ∧ (0 : Int) = 0 ∧ (if c then (0 : Int) else -1) = 0 ∧
        (if d then (0 : Int) else -1) = 0 then success else fail) =
      if a = true ∧ c = true ∧ d = true then success else fail := by decide
  unfold deletePod
  rw [run_bind_of_ret run_get, if_neg hne, run_bind_of_ret (getSubcontainerFront_of_cons hq),
    run_bind_of_ret deleteFromScAcMap_eq]
  refine (run_bind_of_ret (deleteFromSubcontainersMap_eq (q := front :: rest) ?_)).trans ?_
  · exact hq
  · refine (run_bind_of_ret (deleteFromDeployedPodsMap_of_free ?_)).trans ?_
    · exact hfree
    · rw [run_bind_of_ret deleteFromDockerIdScMap_eq, hreply]
      rfl

/-! ## Rules

For an assertion that has to hold whatever the outcome, each call comes down to the one state it
can leave. -/

section Rules

variable {I : Manager → Prop}

theorem wp_matcher (h : I m)
    (hset : I { m with ec := m.ec.modifyBack scId fun sc => sc.setDockerId dockerId }) :
    wp (scIdToDockerIdMatcherThread scId dockerId) (fun _ => I) (fun _ => I) m := by
  unfold scIdToDockerIdMatcherThread
  rw [wp_bind, wp_get]
  cases m.ec.scAcMap.lookup scId with
  | none => exact h
  | some _ =>
    rw [wp_bind]
    exact wp_ecGetScForUpdate_of (fun _ _ => hset) fun _ _ => h

theorem wp_reportPodSpec (h : I m) (hlock : I m.podLocked)
    (hspec : ∀ scId, I (m.withPodSpec scId pod.dockerId))
    (hset : ∀ scId (m' : Manager), m' = m.withPodSpec scId pod.dockerId →
      I { m' with ec := m'.ec.modifyBack scId fun sc => sc.setDockerId pod.dockerId }) :
    wp (reportPodSpec pod) (fun _ => I) (fun _ => I) m := by
  unfold reportPodSpec
  rw [wp_bind]
  cases hlocked : m.depPodLock with
  | true =>
    unfold wp
    rw [insertPodSpec_of_locked hlocked]
    exact h
  | false =>
    cases hpod : pod.containerId? with
    | none =>
      unfold wp
      rw [insertPodSpec_of_unparsable hlocked hpod]
      exact hlock
    | some scId =>
      rw [wp_of_run (insertPodSpec_of_free hlocked hpod)]
      generalize (if (m.dockerToSubContainer.lookup pod.dockerId).isSome then (-3 : Int) else 0) =
        ret
      rw [wp_ite]
      split
      · rw [wp_bind, wp_of_run (run_containerIdOf hpod), wp_bind]
        exact wp_matcher (hspec scId) (hset scId _ rfl)
      · exact hspec scId

theorem wp_deletePod {E : Halt → Manager → Prop} (h : I m) (hE : ∀ e, E e m)
    (hhalf : ∀ id front rest, m.depPodLock = true → m.getScIdFromDockerId dockerId = id →
      id.cgroupId ≠ 0 → m.ec.subcontainers.lookup id = some (front :: rest) →
      E .hang (m.halfDeleted id))
    (hdelete : ∀ id front rest, m.getScIdFromDockerId dockerId = id → id.cgroupId ≠ 0 →
      m.ec.subcontainers.lookup id = some (front :: rest) → I (m.afterDelete dockerId id front)) :
    wp (Manager.deletePod dockerId) (fun _ => I) E m := by
  unfold wp
  by_cases hid : (m.getScIdFromDockerId dockerId).cgroupId = 0
  · rw [deletePod_of_unknown hid]
    exact h
  · cases hq : m.ec.subcontainers.lookup (m.getScIdFromDockerId dockerId) with
    | none =>
      rw [deletePod_of_absent rfl hid hq]
      exact hE _
    | some q =>
      cases q with
      | nil =>
        rw [deletePod_of_empty rfl hid hq]
        exact hE _
      | cons front rest =>
        cases hlocked : m.depPodLock with
        | true =>
          rw [deletePod_of_locked rfl hid hq hlocked]
          exact hhalf _ front rest hlocked rfl hid hq
        | false =>
          rw [deletePod_of_front rfl hid hq hlocked]
          exact hdelete _ front rest rfl hid hq

end Rules

end EcGcm.Manager
