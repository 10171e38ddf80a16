import EcGcm.Proof.Agents
import EcGcm.Proof.Deletion
import EcGcm.System

/-!
# What a deletion leaves alone

A queue of instances per id is there so that pods that share an id can live side by side. Of the
helpers of `DeletePod` only the one for `subcontainers` knows about it: it takes the oldest
instance, whoever that belongs to. The agent link and the list of deployed pods go with the first
deletion under the id.

`DeletesOnly` says what deleting one pod should do to the others. It is what happens exactly when
the pod is `Alone`: its own instance is the oldest, no instance behind it needs the agent link, no
other pod is on its id's list, and no pod spec has left `dep_pod_lock` locked.
-/

set_option autoImplicit false

namespace EcGcm.Manager

open Handler

variable {m m' : Manager} {d : String} {id : ContainerId} {front : SubContainer}
  {rest : List SubContainer}

/-- The docker ids on the list of `id`. -/
def podsOf (m : Manager) (id : ContainerId) : List String := (m.deployedPods.lookup id).getD []

/-- The live instances of `id`, oldest first. -/
def instancesOf (m : Manager) (id : ContainerId) : List SubContainer :=
  (m.ec.subcontainers.lookup id).getD []

/-- `m'` is `m` without the pod `d`, whose instance was one of those of `id`. -/
structure WithoutPod (m : Manager) (d : String) (id : ContainerId) (m' : Manager) : Prop where
  removed : ∃ l sc r, m.instancesOf id = l ++ sc :: r ∧ sc.dockerId = d ∧
    m'.instancesOf id = l ++ r ∧
    m'.ec.cpu = (m.ec.cpu.decrAllocRt sc.quota).incrUnallocatedRt sc.quota ∧
    m'.ec.mem = (m.ec.mem.incrUnallocatedMemoryInPages
      sc.memLimitInPages).decrAllocatedMemoryInPages sc.memLimitInPages.toInt64
  instances : ∀ id', id' ≠ id → m'.ec.subcontainers.lookup id' = m.ec.subcontainers.lookup id'
  agents : ∀ id', m'.instancesOf id' ≠ [] → m'.ec.agent? id' = m.ec.agent? id'
  pods : ∀ d' id', d' ≠ d → m.dockerToSubContainer.lookup d' = some id' → d' ∈ m.podsOf id' →
    d' ∈ m'.podsOf id'
  dockerIds : ∀ d', d' ≠ d → m'.dockerToSubContainer.lookup d' = m.dockerToSubContainer.lookup d'

/-- `DeletePod(d)` returns, and has taken out `d` and nothing else. -/
def DeletesOnly (m : Manager) (d : String) (id : ContainerId) : Prop :=
  wp (deletePod d) (fun _ m' => m.WithoutPod d id m') (fun _ _ => False) m

/-- The pod `d` shares its id with no pod it could take along, and its deletion need not wait. -/
structure Alone (m : Manager) (d : String) (id : ContainerId) : Prop where
  known : id.cgroupId ≠ 0
  free : m.depPodLock = false
  oldest : ∃ sc ∈ (m.instancesOf id).head?, sc.dockerId = d
  agent : (m.instancesOf id).tail ≠ [] → m.ec.agent? id = none
  pods : ∀ d' ∈ m.podsOf id, d' ≠ d → m.dockerToSubContainer.lookup d' ≠ some id

instance : Decidable (m.Alone d id) :=
  decidable_of_iff
    (id.cgroupId ≠ 0 ∧ m.depPodLock = false ∧
      (∃ sc ∈ (m.instancesOf id).head?, sc.dockerId = d) ∧
      ((m.instancesOf id).tail ≠ [] → m.ec.agent? id = none) ∧
      ∀ d' ∈ m.podsOf id, d' ≠ d → m.dockerToSubContainer.lookup d' ≠ some id)
    ⟨fun ⟨h₁, h₂, h₃, h₄, h₅⟩ => ⟨h₁, h₂, h₃, h₄, h₅⟩,
      fun ⟨h₁, h₂, h₃, h₄, h₅⟩ => ⟨h₁, h₂, h₃, h₄, h₅⟩⟩

/-! ## After a deletion -/

theorem instancesOf_afterDelete (hq : m.ec.subcontainers.lookup id = some (front :: rest)) :
    (m.afterDelete d id front).instancesOf id = rest := by
  unfold instancesOf
  rw [lookup_afterDelete hq, if_pos rfl]
  cases rest <;> rfl

theorem agent?_afterDelete (id' : ContainerId) :
    (m.afterDelete d id front).ec.agent? id' = if id' = id then none else m.ec.agent? id' := by
  unfold ElasticContainer.agent?
  rw [scAcMap_afterDelete, UnorderedMap.lookup_erase']
  split <;> rfl

theorem podsOf_afterDelete (id' : ContainerId) :
    (m.afterDelete d id front).podsOf id' = if id' = id then [] else m.podsOf id' := by
  unfold podsOf
  show ((m.deployedPods.erase id).lookup id').getD [] = _
  rw [UnorderedMap.lookup_erase']
  split <;> rfl

/-- What is missing from a list without its head is its head. -/
theorem eq_head_of_removed {α : Type} {x y : α} {l r t : List α} (h : x :: t = l ++ y :: r)
    (ht : t = l ++ r) : y = x := by
  induction l generalizing x t with
  | nil =>
    cases h
    rfl
  | cons z l ih =>
    obtain ⟨rfl, htail⟩ := List.cons.inj h
    exact ih (ht.symm.trans htail) rfl

/-! ## The condition -/

theorem WithoutPod.alone (hq : m.ec.subcontainers.lookup id = some (front :: rest))
    (hne : id.cgroupId ≠ 0) (hfree : m.depPodLock = false)
    (h : m.WithoutPod d id (m.afterDelete d id front)) :
    m.Alone d id := by
  have hinst : m.instancesOf id = front :: rest := by unfold instancesOf; rw [hq]; rfl
  have hafter := instancesOf_afterDelete (d := d) hq
  refine ⟨hne, hfree, ?_, ?_, ?_⟩
  · obtain ⟨l, sc, r, hold, hd, hnew, -, -⟩ := h.removed
    rw [hinst] at hold
    rw [hafter] at hnew
    obtain rfl := eq_head_of_removed hold hnew
    exact ⟨sc, by rw [hinst]; rfl, hd⟩
  · intro hrest
    rw [hinst, List.tail_cons] at hrest
    have hagent := h.agents id (by rw [hafter]; exact hrest)
    rw [agent?_afterDelete, if_pos rfl] at hagent
    exact hagent.symm
  · intro d' hd' hne' hmap
    have hkept := h.pods d' id hne' hmap hd'
    rw [podsOf_afterDelete, if_pos rfl] at hkept
    cases hkept

theorem Alone.withoutPod (hq : m.ec.subcontainers.lookup id = some (front :: rest))
    (h : m.Alone d id) : m.WithoutPod d id (m.afterDelete d id front) := by
  have hinst : m.instancesOf id = front :: rest := by unfold instancesOf; rw [hq]; rfl
  have hafter := instancesOf_afterDelete (d := d) hq
  refine ⟨⟨[], front, rest, hinst, ?_, hafter, cpu_afterDelete, mem_afterDelete⟩, ?_, ?_, ?_, ?_⟩
  · obtain ⟨sc, hsc, hd⟩ := h.oldest
    rw [hinst] at hsc
    cases hsc
    exact hd
  · intro id' hid'
    rw [lookup_afterDelete hq, if_neg hid']
  · intro id' hlive
    rw [agent?_afterDelete]
    split
    · rename_i hid'
      subst hid'
      rw [hafter] at hlive
      exact (h.agent (by rw [hinst]; exact hlive)).symm
    · rfl
  · intro d' id' hne' hmap hd'
    rw [podsOf_afterDelete]
    split
    · rename_i hid'
      subst hid'
      exact absurd hmap (h.pods d' hd' hne')
    · exact hd'
  · intro d' hne'
    exact AList.lookup_erase_ne hne'

theorem getScIdFromDockerId_of_lookup (hd : m.dockerToSubContainer.lookup d = some id) :
    m.getScIdFromDockerId d = id := by
  unfold getScIdFromDockerId
  rw [hd]
  rfl

theorem Alone.deletesOnly (hd : m.dockerToSubContainer.lookup d = some id) (h : m.Alone d id) :
    m.DeletesOnly d id := by
  obtain ⟨front, hfront, -⟩ := h.oldest
  cases hq : m.ec.subcontainers.lookup id with
  | none =>
    unfold instancesOf at hfront
    rw [hq] at hfront
    cases hfront
  | some q =>
    have hinst : m.instancesOf id = q := by unfold instancesOf; rw [hq]; rfl
    rw [hinst] at hfront
    obtain ⟨rest, rfl⟩ := List.head?_eq_some_iff.mp hfront
    unfold DeletesOnly
    rw [wp_of_run (deletePod_of_front (getScIdFromDockerId_of_lookup hd) h.known hq
      h.free)]
    exact h.withoutPod hq

theorem DeletesOnly.alone (hd : m.dockerToSubContainer.lookup d = some id)
    (h : m.DeletesOnly d id) : m.Alone d id := by
  have hid := getScIdFromDockerId_of_lookup hd
  unfold DeletesOnly wp at h
  by_cases hne : id.cgroupId = 0
  · rw [deletePod_of_unknown (hid ▸ hne)] at h
    -- a refused deletion leaves the instance where it is
    obtain ⟨l, sc, r, hold, -, hnew, -, -⟩ := h.removed
    rw [hold] at hnew
    exact absurd (congrArg List.length hnew) (by simp)
  · cases hq : m.ec.subcontainers.lookup id with
    | none =>
      rw [deletePod_of_absent hid hne hq] at h
      exact h.elim
    | some q =>
      cases q with
      | nil =>
        rw [deletePod_of_empty hid hne hq] at h
        exact h.elim
      | cons front rest =>
        cases hlocked : m.depPodLock with
        | true =>
          rw [deletePod_of_locked hid hne hq hlocked] at h
          exact h.elim
        | false =>
          rw [deletePod_of_front hid hne hq hlocked] at h
          exact WithoutPod.alone hq hne hlocked h

/-- **A deletion takes out its pod and nothing else exactly when the pod is alone under its
id.** -/
theorem deletesOnly_iff (m : Manager) (d : String) (id : ContainerId)
    (hd : m.dockerToSubContainer.lookup d = some id) : m.DeletesOnly d id ↔ m.Alone d id :=
  ⟨fun h => h.alone hd, fun h => h.deletesOnly hd⟩

theorem deletesOnly_of_one_pod :
    ∃ m, gcm.Run (Manager.started oneAgent ⟨1000, 100⟩) m ∧
      m.dockerToSubContainer.lookup "a" = some ⟨1, node⟩ ∧ m.DeletesOnly "a" ⟨1, node⟩ := by
  have hreplay : ((gcm.replay [connect 1 8, .podSpec (specOf 1 "a")]
      (Manager.started oneAgent ⟨1000, 100⟩)).any fun m =>
        m.dockerToSubContainer.lookup "a" = some ⟨1, node⟩ ∧ m.Alone "a" ⟨1, node⟩) = true := by
    decide +kernel
  obtain ⟨m, hrun, hm⟩ := System.exists_run_of_replay hreplay
  obtain ⟨hmap, halone⟩ := of_decide_eq_true hm
  exact ⟨m, hrun, hmap, (deletesOnly_iff m "a" _ hmap).mpr halone⟩

/-- A container comes back under the cgroup id 1 while its predecessor is registered. Deleting
either pod goes wrong: `"a"` takes the agent link of `"b"` along, `"b"` the instance of `"a"`. -/
theorem deletion_under_shared_id :
    ¬ ∀ (db : UnorderedMap Ip4Addr AgentClient) (spec : ExportAppSpec) (m : Manager) (d : String)
      (id : ContainerId), gcm.Run (Manager.started db spec) m →
        m.dockerToSubContainer.lookup d = some id → m.DeletesOnly d id := by
  intro hclaim
  have hreplay : ((gcm.replay
      [connect 1 8, .podSpec (specOf 1 "a"), connect 1 9, .podSpec (specOf 1 "b")]
      (Manager.started oneAgent ⟨1000, 100⟩)).any fun m =>
        m.dockerToSubContainer.lookup "a" = some ⟨1, node⟩ ∧ ¬ m.Alone "a" ⟨1, node⟩) = true := by
    decide +kernel
  obtain ⟨m, hrun, hm⟩ := System.exists_run_of_replay hreplay
  obtain ⟨hmap, hnot⟩ := of_decide_eq_true hm
  have honly := hclaim oneAgent ⟨1000, 100⟩ m "a" ⟨1, node⟩ hrun hmap
  exact hnot (honly.alone hmap)

end EcGcm.Manager
