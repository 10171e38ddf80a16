import EcGcm.Proof.Deletion
import EcGcm.Proof.Reports
import EcGcm.System

/-!
# What handlers are made of

Seen from far enough away, a handler is a sequence of elementary steps: a call that touches the
agent side, a write to the newest instance of a container, a new value for one of the pools. A
frame condition that allows each elementary step allows the handler; that is proved here once, for
an arbitrary preorder `R` on states.

Memory handlers and CPU handlers are made of different steps, so there are
several lists (`AllowsReclaim`, `AllowsMem`, `AllowsCpu`). Registration and deletion are on none of
them: what they do is the subject of other modules.
-/

set_option autoImplicit false

namespace EcGcm

open Handler

/-- Who an instance is, as opposed to what it may use. -/
def SubContainer.identity (sc : SubContainer) : ContainerId × String × Int × Bool :=
  (sc.cId, sc.dockerId, sc.fd, sc.inserted)

namespace SubContainer

variable {sc : SubContainer} {env : Env} {req : Msg} {q : UInt64}

@[simp] theorem identity_resized : (sc.resized q).identity = sc.identity := rfl

@[simp] theorem identity_setMemLimitInPages :
    (sc.setMemLimitInPages q).identity = sc.identity := rfl

@[simp] theorem identity_sampled : (sc.sampled env req).identity = sc.identity := rfl

@[simp] theorem identity_stamped : (sc.stamped env req).identity = sc.identity := by
  unfold stamped syncSeqNum
  dsimp only
  split <;> rfl

theorem identity_syncQuota_dropped {sc' : SubContainer} {cpu : Global.Cpu}
    (h : sc.syncQuota q cpu = .dropped sc') : sc'.identity = sc.identity := by
  unfold syncQuota at h
  dsimp only at h
  split at h
  · split at h
    · cases h
    · cases h
      rfl
  · cases h

theorem quota_syncQuota_dropped {sc' : SubContainer} {cpu : Global.Cpu}
    (h : sc.syncQuota q cpu = .dropped sc') : sc'.quota = sc.quota := by
  unfold syncQuota at h
  dsimp only at h
  split at h
  · split at h
    · cases h
    · cases h
      rfl
  · cases h

theorem identity_syncQuota_handled {sc' : SubContainer} {cpu cpu' : Global.Cpu}
    (h : sc.syncQuota q cpu = .handled sc' cpu') : sc'.identity = sc.identity := by
  unfold syncQuota at h
  dsimp only at h
  split at h
  · split at h
    · unfold adoptQuota at h
      dsimp only at h
      split at h <;> cases h <;> rfl
    · cases h
  · cases h
    rfl

end SubContainer

namespace Global.Mem

variable (g : Mem) (d : UInt64) (i : Int64)

theorem fixed_incrUnallocated :
    (g.incrUnallocatedMemoryInPages d).memoryLimitInPages = g.memoryLimitInPages ∧
      (g.incrUnallocatedMemoryInPages d).sliceSize = g.sliceSize := ⟨rfl, rfl⟩

theorem fixed_decrAllocated :
    (g.decrAllocatedMemoryInPages i).memoryLimitInPages = g.memoryLimitInPages ∧
      (g.decrAllocatedMemoryInPages i).sliceSize = g.sliceSize := ⟨rfl, rfl⟩

end Global.Mem

/-- A transfer changes neither the total nor the slice. -/
theorem Transfer.fixed_apply (t : Transfer) (c : Global.Cpu) :
    (t.apply c).totalCpu = c.totalCpu ∧ (t.apply c).sliceSize = c.sliceSize := by
  cases t <;> exact ⟨rfl, rfl⟩

theorem SubContainer.fixed_syncQuota {sc sc' : SubContainer} {q : UInt64} {cpu cpu' : Global.Cpu}
    (h : sc.syncQuota q cpu = .handled sc' cpu') :
    cpu'.totalCpu = cpu.totalCpu ∧ cpu'.sliceSize = cpu.sliceSize := by
  unfold syncQuota at h
  dsimp only at h
  split at h
  · split at h
    · unfold adoptQuota at h
      dsimp only at h
      split at h <;> cases h <;> exact ⟨rfl, rfl⟩
    · cases h
  · cases h
    exact ⟨rfl, rfl⟩

theorem fixed_fixRtLeak (leak : Int64) (cpu : Global.Cpu) :
    (fixRtLeak leak cpu).2.totalCpu = cpu.totalCpu ∧
      (fixRtLeak leak cpu).2.sliceSize = cpu.sliceSize := by
  unfold fixRtLeak
  dsimp only
  split <;> exact ⟨rfl, rfl⟩

/-- The leak repair fills the pool, and changes nothing that containers hold or owe. -/
theorem debts_fixRtLeak (leak : Int64) (cpu : Global.Cpu) :
    (fixRtLeak leak cpu).2.overrun = cpu.overrun ∧
      (fixRtLeak leak cpu).2.allocRt = cpu.allocRt := by
  unfold fixRtLeak
  dsimp only
  split <;> exact ⟨rfl, rfl⟩

namespace Manager

open ElasticContainer

/-- `R` allows the steps of a reclaim pass. -/
structure AllowsReclaim (R : Manager → Manager → Prop) : Prop where
  agent : ∀ {m m'}, AgentFrame m m' → R m m'
  limit : ∀ {m id limit}, R m { m with
    ec := m.ec.modifyBack id fun sc => sc.setMemLimitInPages limit }

/-- `R` allows the steps of memory handlers. -/
structure AllowsMem (R : Manager → Manager → Prop) : Prop extends AllowsReclaim R where
  mem : ∀ {m g}, g.memoryLimitInPages = m.ec.mem.memoryLimitInPages →
    g.sliceSize = m.ec.mem.sliceSize → R m { m with ec := { m.ec with mem := g } }
  lock : ∀ {m}, R m { m with memlock := true }

/-- `R` allows the steps of CPU handlers. -/
structure AllowsCpu (R : Manager → Manager → Prop) : Prop where
  agent : ∀ {m m'}, AgentFrame m m' → R m m'
  back : ∀ {m id f}, (∀ sc ∈ m.ec.back? id, (f sc).identity = sc.identity) →
    R m { m with ec := m.ec.modifyBack id f }
  cpu : ∀ {m c}, c.totalCpu = m.ec.cpu.totalCpu → c.sliceSize = m.ec.cpu.sliceSize →
    R m { m with ec := { m.ec with cpu := c } }
  counters : ∀ {m leak seq idleSeq}, R m { m with
    cpuleak := leak, syscallSequenceNumber := seq, idleContainerSyscallSeqNum := idleSeq }

variable {R : Manager → Manager → Prop} [IsPreorder Manager R] {m m' : Manager} {env : Env}
  {id : ContainerId} {sc : SubContainer}

theorem keeps_ecGetScForUpdate : Keeps R (ecGetScForUpdate id) := by
  refine keeps_bind keeps_get fun m => ?_
  split
  · exact keeps_halt _
  · split
    · exact keeps_halt _
    · exact keeps_pure _

theorem keeps_backOf : Keeps R (backOf id) := by
  refine keeps_bind keeps_get fun m => ?_
  split
  · exact keeps_halt _
  · exact keeps_pure _

theorem keeps_answer {α : Type} {lost : Halt} {o : Option α} : Keeps R (answer lost o) := by
  cases o with
  | none => exact keeps_halt _
  | some a => exact keeps_pure _

omit [IsPreorder Manager R] in
theorem keeps_getCorresAgentClient (hR : ∀ {m m'}, AgentFrame m m' → R m m') :
    Keeps R (getCorresAgentClient id) :=
  keeps_of_wp fun _ => wp_getCorresAgentClient fun _ hm => hR hm

theorem keeps_setScQuotaSyscall {quota : UInt64} {seqNumber : UInt32}
    (hR : ∀ {m m'}, AgentFrame m m' → R m m') :
    Keeps R (setScQuotaSyscall env sc quota seqNumber) :=
  keeps_of_wp fun m => wp_setScQuotaSyscall (fun _ => refl_of R m)
    (fun _ hm _ _ => hR hm) (fun _ _ hm _ _ => hR hm)

/-! ## The application spec -/

/-- The state a `ReportAppSpec` of these limits leaves. -/
def withAppLimits (m : Manager) (totalCpu pages : UInt64) : Manager :=
  { m with ec := { m.ec with
    cpu := (m.ec.cpu.setTotalCpu totalCpu).setUnallocatedRt totalCpu
    mem := ((m.ec.mem.setMemoryLimitInPages pages).setUnallocatedMemoryInPages
      pages.toInt64).setAllocatedMemoryInPages 0 } }

theorem run_modifyCpu_modifyMem {f : Global.Cpu → Global.Cpu} {g : Global.Mem → Global.Mem} :
    (modifyCpu f >>= fun _ => modifyMem g >>= fun _ => pure .ok : M Status).run m =
      .ret .ok { m with ec := { m.ec with cpu := f m.ec.cpu, mem := g m.ec.mem } } := rfl

theorem run_reportAppSpec {spec : ExportAppSpec} :
    (reportAppSpec spec).run m = .ret .ok
      (m.withAppLimits (spec.cpuLimit * 100000) (spec.memLimit * 1024 * 1024 / 4096)) :=
  run_modifyCpu_modifyMem

theorem next_appSpec {spec : ExportAppSpec} :
    gcm.next (.appSpec spec) m = some
      (m.withAppLimits (spec.cpuLimit * 100000) (spec.memLimit * 1024 * 1024 / 4096)) := by
  have hrun : (Event.appSpec spec).handle.run m = .ret ⟨⟩
      (m.withAppLimits (spec.cpuLimit * 100000) (spec.memLimit * 1024 * 1024 / 4096)) :=
    run_bind_of_ret run_reportAppSpec
  show ((Event.appSpec spec).handle.run m).resume = _
  rw [hrun]
  rfl

/-! ## Memory handlers -/

namespace AllowsReclaim

variable (h : AllowsReclaim R)

include h

omit [IsPreorder Manager R] in
theorem setMemLimitInPages {limit : UInt64} :
    Keeps R (Manager.modifyBack id fun sc => sc.setMemLimitInPages limit) :=
  keeps_modify fun _ => h.limit

theorem scResizeMemoryLimitInPages : Keeps R (scResizeMemoryLimitInPages env id) := by
  refine keeps_bind (keeps_getCorresAgentClient h.agent) fun agent => ?_
  split
  · exact keeps_halt _
  · exact keeps_answer

theorem scGetMemoryUsageInBytesCadvisor {dockerId : String} :
    Keeps R (scGetMemoryUsageInBytesCadvisor env id dockerId) := by
  refine keeps_bind (keeps_getCorresAgentClient h.agent) fun agent => ?_
  split
  · exact keeps_pure _
  · exact keeps_ite (keeps_pure _) keeps_answer

theorem scGetMemoryLimitInBytesCadvisor {dockerId : String} :
    Keeps R (scGetMemoryLimitInBytesCadvisor env id dockerId) := by
  refine keeps_bind (keeps_getCorresAgentClient h.agent) fun agent => ?_
  split
  · exact keeps_pure _
  · exact keeps_ite (keeps_pure _) keeps_answer

theorem scSetMemoryLimitInPages {limit : UInt64} : Keeps R (scSetMemoryLimitInPages id limit) :=
  keeps_bind keeps_ecGetScForUpdate fun _ => h.setMemLimitInPages

theorem reclaim : Keeps R (reclaim env id sc) := by
  refine keeps_bind h.scGetMemoryUsageInBytesCadvisor fun usage => ?_
  refine keeps_ite (keeps_pure _) (keeps_ite ?_ (keeps_pure _))
  refine keeps_bind h.scResizeMemoryLimitInPages fun notResized => ?_
  refine keeps_ite ?_ (keeps_pure _)
  exact keeps_bind h.scSetMemoryLimitInPages fun _ => keeps_pure _

theorem reclaimFrom {keep : SubContainer → Bool} (ids : List ContainerId) :
    Keeps R (reclaimFrom env keep ids) := by
  induction ids with
  | nil => exact keeps_pure _
  | cons id ids ih =>
    refine keeps_bind keeps_backOf fun sc => ?_
    have hrest : ∀ amnt : UInt64,
        Keeps R (Manager.reclaimFrom env keep ids >>= fun rest =>
          (pure (amnt + rest) : M UInt64)) :=
      fun amnt => keeps_bind ih fun _ => keeps_pure _
    cases keep sc with
    | true => exact keeps_bind (keeps_pure _) hrest
    | false => exact keeps_bind h.reclaim hrest

theorem launchFrom {clientFd : Int} (ids : List ContainerId) :
    Keeps R (launchFrom env clientFd ids) := by
  induction ids with
  | nil => exact keeps_pure _
  | cons id ids ih =>
    refine keeps_bind keeps_backOf fun sc => keeps_ite ih ?_
    exact keeps_bind (keeps_task h.reclaim) fun _ => keeps_bind ih fun _ => keeps_pure _

theorem handleReclaimMemory {clientFd : Int} : Keeps R (handleReclaimMemory env clientFd) :=
  keeps_bind keeps_get fun _ => keeps_bind (h.launchFrom _) fun _ =>
    keeps_bind (keeps_collect _) fun _ => keeps_pure _

end AllowsReclaim

namespace AllowsMem

variable (h : AllowsMem R)

include h

omit [IsPreorder Manager R] in
theorem modifyMem {f : Global.Mem → Global.Mem}
    (hf : ∀ g, (f g).memoryLimitInPages = g.memoryLimitInPages ∧ (f g).sliceSize = g.sliceSize) :
    Keeps R (Manager.modifyMem f) :=
  keeps_modify fun m => h.mem (hf m.ec.mem).1 (hf m.ec.mem).2

theorem ecUpdateAllocMemoryInPages {mem : UInt64} : Keeps R (ecUpdateAllocMemoryInPages mem) :=
  keeps_bind (h.modifyMem fun _ => ⟨rfl, rfl⟩) fun _ => h.modifyMem fun _ => ⟨rfl, rfl⟩

theorem ecUpdateReclaimMemoryInPages {mem : UInt64} : Keeps R (ecUpdateReclaimMemoryInPages mem) :=
  keeps_bind (h.modifyMem fun _ => ⟨rfl, rfl⟩) fun _ => h.modifyMem fun _ => ⟨rfl, rfl⟩

theorem periodicReclaim : Keeps R (Manager.periodicReclaim env) := by
  refine keeps_bind keeps_get fun m => keeps_bind (h.reclaimFrom _) fun ret => ?_
  exact keeps_ite h.ecUpdateReclaimMemoryInPages (keeps_pure _)

theorem grantMemory {req : Msg} {memoryAvailable : Int64} :
    Keeps R (grantMemory req memoryAvailable) := by
  refine keeps_bind keeps_get fun m => keeps_bind h.ecUpdateAllocMemoryInPages fun _ => ?_
  refine keeps_bind keeps_ecGetScForUpdate fun _ => ?_
  exact keeps_bind h.setMemLimitInPages fun _ => keeps_pure _

theorem fillNegativePool {memoryAvailable : Int64} : Keeps R (fillNegativePool memoryAvailable) :=
  keeps_bind (h.modifyMem fun g => g.fixed_incrUnallocated _) fun _ =>
    h.modifyMem fun g => g.fixed_decrAllocated _

theorem serveMemReq {req : Msg} {clifd : Int} : Keeps R (serveMemReq env req clifd) := by
  refine keeps_bind keeps_get fun m => ?_
  refine keeps_ite h.grantMemory (keeps_bind h.handleReclaimMemory fun reclaimed => ?_)
  refine keeps_ite (keeps_ite ?_ ?_) (keeps_pure _)
  · refine keeps_bind h.fillNegativePool fun _ => ?_
    refine keeps_bind h.ecUpdateReclaimMemoryInPages fun _ => ?_
    exact keeps_bind keeps_get fun _ => h.grantMemory
  · refine keeps_bind h.ecUpdateReclaimMemoryInPages fun _ => ?_
    exact keeps_bind keeps_get fun _ => h.grantMemory

theorem handleMemReq {req : Msg} {clifd : Int} : Keeps R (handleMemReq env req clifd) :=
  keeps_ite (keeps_pure _) (keeps_locked (fun _ => h.lock) h.serveMemReq)

theorem chargeNewPod {clifd : Int} {pages : UInt64} :
    Keeps R (chargeNewPod env id clifd pages) := by
  refine keeps_bind keeps_get fun m => keeps_ite h.ecUpdateAllocMemoryInPages ?_
  refine keeps_ite (keeps_pure _) (keeps_bind h.handleReclaimMemory fun reclaimed => ?_)
  refine keeps_bind h.ecUpdateReclaimMemoryInPages fun _ => keeps_bind keeps_get fun m => ?_
  refine keeps_ite h.ecUpdateAllocMemoryInPages ?_
  refine keeps_bind h.scResizeMemoryLimitInPages fun notResized => ?_
  exact keeps_ite (keeps_pure _) h.ecUpdateAllocMemoryInPages

theorem determineMemLimitForNewPod {clifd : Int} :
    Keeps R (determineMemLimitForNewPod env id clifd) := by
  refine keeps_bind keeps_backOf fun sc => keeps_ite (keeps_halt _) ?_
  refine keeps_bind h.scGetMemoryLimitInBytesCadvisor fun bytes => ?_
  exact keeps_bind h.chargeNewPod fun _ => h.setMemLimitInPages

end AllowsMem

/-! ## CPU handlers -/

namespace AllowsCpu

variable (h : AllowsCpu R)

include h

theorem applyResize {seqNumber : UInt32} {rz : Resize} :
    Keeps R (applyResize env id sc seqNumber rz) := by
  refine keeps_bind (keeps_setScQuotaSyscall h.agent) fun ret => keeps_ite (keeps_pure _) ?_
  refine keeps_bind (keeps_modify fun m => h.back fun _ _ => rfl) fun _ => ?_
  exact keeps_modify fun m => h.cpu (rz.transfer.fixed_apply m.ec.cpu).1
    (rz.transfer.fixed_apply m.ec.cpu).2

/-- Up to the chain, a report is three steps. -/
theorem accepted {req : Msg} {sc₁ : SubContainer} {cpu₁ : Global.Cpu}
    (hb : m.ec.back? req.containerId = some sc)
    (hs : (sc.stamped env req).syncQuota req.rsrcAmnt m.ec.cpu = .handled sc₁ cpu₁) :
    R m (m.accepted env req sc₁ cpu₁) := by
  have hid := SubContainer.identity_syncQuota_handled hs
  rw [SubContainer.identity_stamped] at hid
  have hcpu := SubContainer.fixed_syncQuota hs
  have hfix := fixed_fixRtLeak m.cpuleak cpu₁
  have hleak : R m { m with cpuleak := (fixRtLeak m.cpuleak cpu₁).1 } := h.counters
  have hpool := h.cpu (m := { m with cpuleak := (fixRtLeak m.cpuleak cpu₁).1 })
    (c := (fixRtLeak m.cpuleak cpu₁).2) (hfix.1.trans hcpu.1) (hfix.2.trans hcpu.2)
  refine trans_of R (trans_of R hleak hpool) (h.back fun sc' hb' => ?_)
  cases hb.symm.trans hb'
  exact hid

theorem handleCpuUsageReport {req : Msg} : Keeps R (handleCpuUsageReport env req) := by
  refine keeps_of_wp fun m => ?_
  by_cases ht : req.reqType = cpuReq
  · cases hb : m.ec.back? req.containerId with
    | none => exact wp_handleCpuUsageReport_of_absent ht hb fun _ => refl_of R m
    | some sc =>
      refine wp_handleCpuUsageReport ht hb (fun sc' hs => ?_) (fun sc₁ cpu₁ hs _ => ?_)
        (fun sc₁ cpu₁ rz hs _ => ?_)
      · have hid := SubContainer.identity_syncQuota_dropped hs
        rw [SubContainer.identity_stamped] at hid
        refine h.back fun sc₀ hb₀ => ?_
        cases hb.symm.trans hb₀
        exact hid
      · exact trans_of R (h.accepted hb hs) h.counters
      · refine wp_mono (h.applyResize.wp _) (fun _ m' h' => ?_) (fun _ m' h' => ?_)
        · exact trans_of R (trans_of R (h.accepted hb hs) h') h.counters
        · exact trans_of R (h.accepted hb hs) h'
  · unfold Manager.handleCpuUsageReport
    rw [wp_ite, if_pos ht]
    exact refl_of R m

theorem checkForIdleContainers : Keeps R (checkForIdleContainers env) := by
  refine keeps_bind keeps_get fun m => keeps_forM _ fun id => ?_
  refine keeps_bind keeps_backOf fun sc => keeps_ite ?_ (keeps_pure _)
  refine keeps_bind keeps_get fun m => keeps_bind h.applyResize fun _ => ?_
  exact keeps_modify fun _ => h.counters

end AllowsCpu

end Manager

end EcGcm
