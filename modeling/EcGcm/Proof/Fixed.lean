import EcGcm.Proof.Frames

/-!
# What only a `ReportAppSpec` changes

The application's CPU total and memory limit are written by `ReportAppSpec` and by nothing else,
and the two slice sizes are written by nothing at all. What follows for a spec that is reported
twice is the last section.
-/

set_option autoImplicit false

namespace EcGcm.Manager

open Handler ElasticContainer

/-- What the application may use, and the two slices. -/
def fixed (m : Manager) : UInt64 × UInt64 × UInt64 × UInt64 :=
  (m.ec.cpu.totalCpu, m.ec.mem.memoryLimitInPages, m.ec.cpu.sliceSize, m.ec.mem.sliceSize)

def Fixed (m m' : Manager) : Prop := m'.fixed = m.fixed

instance : IsPreorder Manager Fixed where
  refl _ := rfl
  trans _ _ _ h h' := Eq.trans h' h

variable {m m' : Manager} {env : Env} {id : ContainerId}

theorem Fixed.of_pools (hcpu : m'.ec.cpu = m.ec.cpu) (hmem : m'.ec.mem = m.ec.mem) :
    Fixed m m' := by
  unfold Fixed fixed
  rw [hcpu, hmem]

theorem AgentFrame.fixed (h : AgentFrame m m') : Fixed m m' := .of_pools h.cpu h.mem

theorem fixed_mem : AllowsMem Fixed where
  agent := AgentFrame.fixed
  limit := .of_pools cpu_modifyBack mem_modifyBack
  mem hlimit hslice := by
    unfold Fixed Manager.fixed
    rw [hlimit, hslice]
  lock := rfl

theorem fixed_cpu : AllowsCpu Fixed where
  agent := AgentFrame.fixed
  back _ := .of_pools cpu_modifyBack mem_modifyBack
  cpu htotal hslice := by
    unfold Fixed Manager.fixed
    rw [htotal, hslice]
  counters := rfl

/-! ## Registration and deletion -/

theorem fixed_determineQuotaForNewPod {reqQuota : UInt64} :
    Keeps Fixed (determineQuotaForNewPod reqQuota) := by
  refine keeps_bind keeps_get fun m => keeps_ite ?_ (keeps_ite ?_ ?_)
  · exact keeps_bind (keeps_modify fun _ => rfl) fun _ => keeps_pure _
  · exact keeps_bind (keeps_modify fun _ => rfl) fun _ => keeps_pure _
  · exact keeps_bind (keeps_modify fun _ => rfl) fun _ => keeps_pure _

theorem fixed_linkAgent : Keeps Fixed (linkAgent id) := by
  refine keeps_bind keeps_get fun m => ?_
  split
  · refine keeps_bind (keeps_modify fun _ => rfl) fun _ => keeps_modify fun _ => ?_
    exact .of_pools cpu_modifyBack mem_modifyBack
  · exact keeps_pure _

theorem fixed_handleAddCgroupToEc {req : Msg} {ip : UInt32} {fd : Int} :
    Keeps Fixed (handleAddCgroupToEc env req ip fd) := by
  refine keeps_bind fixed_determineQuotaForNewPod fun r => ?_
  refine keeps_bind (keeps_modify fun _ => .of_pools cpu_insertSc mem_insertSc) fun _ => ?_
  refine keeps_bind (keeps_modify fun _ =>
    .of_pools cpu_updateFairCpuShare mem_updateFairCpuShare) fun _ => ?_
  refine keeps_bind fixed_linkAgent fun _ => ?_
  obtain ⟨updateQuota, quota⟩ := r
  cases updateQuota with
  | false => exact keeps_pure _
  | true =>
    refine keeps_bind keeps_backOf fun sc => ?_
    exact keeps_bind (keeps_setScQuotaSyscall AgentFrame.fixed) fun _ => keeps_pure _

theorem fixed_setDockerId {dockerId : String} :
    Fixed m { m with ec := m.ec.modifyBack id fun sc => sc.setDockerId dockerId } :=
  .of_pools cpu_modifyBack mem_modifyBack

theorem fixed_deletePod {dockerId : String} : Keeps Fixed (Manager.deletePod dockerId) := by
  refine keeps_of_wp fun m => wp_deletePod (refl_of Fixed m) (fun _ => refl_of Fixed m)
    (fun _ _ _ _ _ _ _ => .of_pools cpu_halfDeleted mem_halfDeleted) fun id front rest _ _ _ => ?_
  unfold Fixed Manager.fixed
  rw [cpu_afterDelete, mem_afterDelete]
  rfl

/-- **Every other event leaves total, limit and slices alone.** -/
theorem fixed_next {e : Event} (he : ∀ spec, e ≠ .appSpec spec) (hnext : gcm.next e m = some m') :
    m'.fixed = m.fixed := by
  refine resume_of_wp (I := Fixed m) ?_ hnext
  cases e with
  | appSpec spec => exact absurd rfl (he spec)
  | podSpec pod =>
    refine (wp_bind ..).mpr (wp_reportPodSpec (refl_of Fixed m) rfl (fun _ => rfl) ?_)
    intro scId m' hm
    subst hm
    exact .of_pools cpu_modifyBack mem_modifyBack
  | matchDockerId scId dockerId => exact wp_matcher (refl_of Fixed m) fixed_setDockerId
  | deletePod dockerId => exact (wp_bind ..).mpr (fixed_deletePod.wp m)
  | memLimit env id clifd => exact wp_inThread.mpr (fixed_mem.determineMemLimitForNewPod.wp m)
  | idleSweep env => exact fixed_cpu.checkForIdleContainers.wp m
  | periodicReclaim env => exact wp_inThread.mpr (fixed_mem.periodicReclaim.wp m)
  | message env req hostIp clifd =>
    refine wp_inThread.mpr ((wp_bind ..).mpr ?_)
    show wp (handleReq env req hostIp clifd) (fun _ => Fixed m) _ m
    unfold handleReq
    rw [wp_ite]
    split
    · exact fixed_mem.handleMemReq.wp m
    · rw [wp_ite]
      split
      · exact fixed_cpu.handleCpuUsageReport.wp m
      · rw [wp_ite]
        split
        · exact fixed_handleAddCgroupToEc.wp m
        · exact refl_of Fixed m

theorem fixed_withAppLimits {totalCpu pages : UInt64} :
    (m.withAppLimits totalCpu pages).fixed =
      (totalCpu, pages, m.ec.cpu.sliceSize, m.ec.mem.sliceSize) := rfl

/-- **The slices are the ones the process started with**, in every reachable state. -/
theorem slices_of_run {db : UnorderedMap Ip4Addr AgentClient} (hrun : gcm.Run (.new db) m) :
    m.ec.cpu.sliceSize = 30000000 ∧ m.ec.mem.sliceSize = 5000 := by
  refine System.invariant (I := fun m => m.ec.cpu.sliceSize = 30000000 ∧ m.ec.mem.sliceSize = 5000)
    ⟨rfl, rfl⟩ ?_ hrun
  rintro e t t' ⟨hcpu, hmem⟩ _ hnext
  have hslices : t'.fixed.2.2 = t.fixed.2.2 := by
    by_cases he : ∃ spec, e = .appSpec spec
    · obtain ⟨spec, rfl⟩ := he
      rw [next_appSpec] at hnext
      cases hnext
      rw [fixed_withAppLimits]
      rfl
    · rw [fixed_next (fun spec heq => he ⟨spec, heq⟩) hnext]
  obtain ⟨hcpu', hmem'⟩ := Prod.mk.inj hslices
  exact ⟨hcpu'.trans hcpu, hmem'.trans hmem⟩

/-! ## A repeated spec

`ReportAppSpec` sets the pool, not the allocated total of the CPU, and both counters of the
memory. A second report of the same spec finds total and limit as they should be and puts
everything that is handed out back into the pools, where it can be handed out again. -/

/-- The two pools with what has been taken out of them, and the limits. -/
def pools (m : Manager) : (UInt64 × UInt64) × (Int64 × Int64) × (UInt64 × UInt64) :=
  ((m.ec.cpu.unallocatedRt, m.ec.cpu.allocRt),
    (m.ec.mem.unallocatedMemoryInPages, m.ec.mem.allocatedMemoryInPages),
    (m.ec.cpu.totalCpu, m.ec.mem.memoryLimitInPages))

theorem pools_withAppLimits {totalCpu pages : UInt64} :
    (m.withAppLimits totalCpu pages).pools =
      ((totalCpu, m.ec.cpu.allocRt), (pages.toInt64, 0), (totalCpu, pages)) := rfl

/-- No application spec. -/
def OtherEvent : Event → Prop
  | .appSpec _ => False
  | _ => True

instance : (e : Event) → Decidable (OtherEvent e)
  | .appSpec _ => .isFalse not_false
  | .podSpec _ => .isTrue trivial
  | .matchDockerId .. => .isTrue trivial
  | .deletePod _ => .isTrue trivial
  | .message .. => .isTrue trivial
  | .memLimit .. => .isTrue trivial
  | .idleSweep _ => .isTrue trivial
  | .periodicReclaim _ => .isTrue trivial

instance (m : Manager) (e : Event) : Decidable ((gcm.only fun _ => OtherEvent).enabled m e) :=
  inferInstanceAs (Decidable (True ∧ OtherEvent e))

/-- `m` is reached by a run in which `spec` is the last application spec. -/
def InForce (db : UnorderedMap Ip4Addr AgentClient) (spec : ExportAppSpec) (m : Manager) : Prop :=
  ∃ m₀ m₁, gcm.Run (.new db) m₀ ∧ gcm.next (.appSpec spec) m₀ = some m₁ ∧
    (gcm.only fun _ => OtherEvent).Run m₁ m

/-- Nothing is out of either pool. -/
structure PoolsWhole (m : Manager) : Prop where
  unallocatedRt : m.ec.cpu.unallocatedRt = m.ec.cpu.totalCpu
  unallocatedMemory : m.ec.mem.unallocatedMemoryInPages = m.ec.mem.memoryLimitInPages.toInt64
  allocatedMemory : m.ec.mem.allocatedMemoryInPages = 0

theorem fixed_of_run (hrun : (gcm.only fun _ => OtherEvent).Run m m') : Fixed m m' := by
  refine System.invariant (I := Fixed m) (refl_of Fixed m) ?_ hrun
  intro e t t' ht hen hnext
  refine trans_of Fixed ht (fixed_next (fun spec heq => ?_) hnext)
  rw [heq] at hen
  exact hen.2

/-- The total and the limit in force are those of the spec. -/
theorem InForce.limits {db : UnorderedMap Ip4Addr AgentClient} {spec : ExportAppSpec}
    (h : InForce db spec m) :
    m.ec.cpu.totalCpu = spec.cpuLimit * 100000 ∧
      m.ec.mem.memoryLimitInPages = spec.memLimit * 1024 * 1024 / 4096 := by
  obtain ⟨m₀, m₁, _, hspec, hrun⟩ := h
  have hfixed := fixed_of_run hrun
  rw [next_appSpec] at hspec
  cases hspec
  unfold Fixed at hfixed
  rw [fixed_withAppLimits] at hfixed
  obtain ⟨htotal, hrest⟩ := Prod.mk.inj hfixed
  exact ⟨htotal, (Prod.mk.inj hrest).1⟩

theorem InForce.poolsWhole {db : UnorderedMap Ip4Addr AgentClient} {spec : ExportAppSpec}
    (h : InForce db spec m) (hnext : gcm.next (.appSpec spec) m = some m')
    (hpools : m'.pools = m.pools) : m.PoolsWhole := by
  obtain ⟨htotal, hlimit⟩ := h.limits
  rw [next_appSpec] at hnext
  cases hnext
  rw [pools_withAppLimits] at hpools
  obtain ⟨hcpu, hrest⟩ := Prod.mk.inj hpools
  obtain ⟨hmem, _⟩ := Prod.mk.inj hrest
  refine ⟨?_, ?_, (Prod.mk.inj hmem).2.symm⟩
  · rw [htotal]
    exact (Prod.mk.inj hcpu).1.symm
  · rw [hlimit]
    exact (Prod.mk.inj hmem).1.symm

/-- **A repeated spec leaves the pools alone exactly when nothing is out of them.** -/
theorem pools_of_repeated_spec_iff {db : UnorderedMap Ip4Addr AgentClient} {spec : ExportAppSpec}
    (h : InForce db spec m) :
    (∃ m', gcm.next (.appSpec spec) m = some m' ∧ m'.pools = m.pools) ↔ m.PoolsWhole := by
  constructor
  · rintro ⟨m', hnext, hpools⟩
    exact h.poolsWhole hnext hpools
  · intro hwhole
    obtain ⟨htotal, hlimit⟩ := h.limits
    refine ⟨_, next_appSpec, ?_⟩
    rw [pools_withAppLimits]
    unfold pools
    rw [hwhole.unallocatedRt, hwhole.unallocatedMemory, hwhole.allocatedMemory, htotal, hlimit]

/-- A replay that starts with the first report. -/
theorem exists_inForce_of_replay {p : Manager → Bool} {es : List Event}
    (h : ((gcm.only fun _ => OtherEvent).replay es (started oneAgent ⟨1000, 100⟩)).any p = true) :
    ∃ m, InForce oneAgent ⟨1000, 100⟩ m ∧ p m = true := by
  obtain ⟨m, hrun, hp⟩ := System.exists_run_of_replay h
  exact ⟨m, ⟨_, _, .refl, rfl, hrun⟩, hp⟩

/-- A container that has come and gone has left the pools whole. -/
theorem pools_kept_after_deletion :
    ∃ m, InForce oneAgent ⟨1000, 100⟩ m ∧ m.PoolsWhole ∧
      ∃ m', gcm.next (.appSpec ⟨1000, 100⟩) m = some m' ∧ m'.pools = m.pools := by
  have hreplay : (((gcm.only fun _ => OtherEvent).replay
      [connect 1 8, .podSpec (specOf 1 "a"), .deletePod "a"]
      (started oneAgent ⟨1000, 100⟩)).any fun m =>
        m.ec.cpu.unallocatedRt = m.ec.cpu.totalCpu ∧
          m.ec.mem.unallocatedMemoryInPages = m.ec.mem.memoryLimitInPages.toInt64 ∧
          m.ec.mem.allocatedMemoryInPages = 0) = true := by
    decide +kernel
  obtain ⟨m, hforce, hwhole⟩ := exists_inForce_of_replay hreplay
  obtain ⟨hrt, hunalloc, halloc⟩ := of_decide_eq_true hwhole
  have hwhole : m.PoolsWhole := ⟨hrt, hunalloc, halloc⟩
  exact ⟨m, hforce, hwhole, (pools_of_repeated_spec_iff hforce).mpr hwhole⟩

/-- A container is running: its CPU is in the pool again after the second report. -/
theorem pools_refilled_by_repeated_spec :
    ¬ ∀ (db : UnorderedMap Ip4Addr AgentClient) (spec : ExportAppSpec) (m : Manager),
      InForce db spec m →
      ∃ m', gcm.next (.appSpec spec) m = some m' ∧ m'.pools = m.pools := by
  intro hclaim
  have hreplay : (((gcm.only fun _ => OtherEvent).replay [connect 1 8]
      (started oneAgent ⟨1000, 100⟩)).any fun m =>
        m.ec.cpu.unallocatedRt ≠ m.ec.cpu.totalCpu) = true := by
    decide +kernel
  obtain ⟨m, hforce, hout⟩ := exists_inForce_of_replay hreplay
  obtain ⟨m', hnext, hpools⟩ := hclaim _ _ m hforce
  exact of_decide_eq_true hout (hforce.poolsWhole hnext hpools).unallocatedRt

end EcGcm.Manager
