import EcGcm.Proof.Deletion
import EcGcm.Proof.Reports
import EcGcm.System

/-!
# The CPU books

Two equations, over whole runs:

    alloc_rt                   =  the recorded quotas of all live containers
    alloc_rt + unallocated_rt  =  total_cpu + overrun

They have to be carried together. That no decrement of `alloc_rt` clips is the first one (what a
container gives back is part of the sum), and that no decrement of the pool clips needs the range
that the second one gives.

The leak repair adds `total - (alloc + pool)`, which is `-overrun`, to `cpuleak` on every report,
and nothing takes it away again. So `cpuleak` stays at or below zero and the repair never fires,
until the accumulator leaves the range of an `int64_t`: `LeakInRange` is the state of not being
there yet.
-/

set_option autoImplicit false

namespace EcGcm

open Word Handler

namespace ElasticContainer

/-- The two equations, and that nothing was ever clipped. -/
structure CpuBooks (ec : ElasticContainer) : Prop where
  alloc : ec.cpu.allocRt.toNat = ec.totalQuota
  balance : ec.cpu.allocRt.toNat + ec.cpu.unallocatedRt.toNat =
    ec.cpu.totalCpu.toNat + ec.cpu.overrun.toNat
  unclipped : ec.cpu.clipped = 0

/-- The books, with the facts about slice and share that keep them. -/
structure CpuInv (ec : ElasticContainer) : Prop extends CpuBooks ec where
  slice : ec.cpu.sliceSize = 30000000
  share : ec.fairCpuShare.toNat ≤ ec.cpu.totalCpu.toNat

/-- `T + O` is below `2^63`. -/
def InRange (ec : ElasticContainer) : Prop :=
  ec.cpu.totalCpu.toNat + ec.cpu.overrun.toNat < 2 ^ 63

instance (ec : ElasticContainer) : Decidable ec.InRange :=
  inferInstanceAs (Decidable (_ < _))

variable {ec ec' : ElasticContainer} {id : ContainerId} {sc : SubContainer}

/-- **A balanced move keeps the books**, when the recorded quotas move with `alloc_rt`. -/
theorem CpuInv.of_moved {dAlloc dPool dOverrun : Int} (h : ec.CpuInv)
    (hm : ec.cpu.Moved ec'.cpu dAlloc dPool dOverrun) (hd : dAlloc + dPool = dOverrun)
    (hq : (ec'.totalQuota : Int) = ec.totalQuota + dAlloc)
    (hF : ec'.fairCpuShare.toNat ≤ ec'.cpu.totalCpu.toNat) : ec'.CpuInv where
  alloc := by
    have h₁ := hm.allocRt
    have h₂ := h.alloc
    omega
  balance := by
    have h₁ := hm.allocRt
    have h₂ := hm.unallocatedRt
    have h₃ := hm.overrun
    have h₄ := h.balance
    rw [hm.totalCpu]
    omega
  unclipped := hm.clipped.trans h.unclipped
  slice := hm.sliceSize.trans h.slice
  share := hF

/-- Nothing that the books speak of has changed. -/
theorem CpuInv.of_eq (h : ec.CpuInv) (hcpu : ec'.cpu = ec.cpu)
    (hq : ec'.totalQuota = ec.totalQuota) (hF : ec'.fairCpuShare = ec.fairCpuShare) :
    ec'.CpuInv where
  alloc := by rw [hcpu, hq]; exact h.alloc
  balance := by rw [hcpu]; exact h.balance
  unclipped := by rw [hcpu]; exact h.unclipped
  slice := by rw [hcpu]; exact h.slice
  share := by rw [hcpu, hF]; exact h.share

theorem CpuInv.quota_le (h : ec.CpuInv) (hb : ec.back? id = some sc) :
    sc.quota.toNat ≤ ec.cpu.allocRt.toNat := by
  rw [h.alloc]
  exact le_sumOver (g := fun sc => sc.quota.toNat) hb

/-- A resize that pays keeps the books. -/
theorem CpuInv.resize {rz : Resize} (h : ec.CpuInv) (hr : ec.InRange)
    (hb : ec.back? id = some sc)
    (hp : rz.Pays sc.quota ec.cpu.overrun ec.cpu.unallocatedRt.toNat) :
    ({ ec.modifyBack id fun sc => sc.resized rz.newQuota with
        cpu := rz.transfer.apply ec.cpu } : ElasticContainer).CpuInv := by
  have hbal := h.balance
  have hshare := h.share
  unfold InRange at hr
  obtain ⟨dPool, dOverrun, hm, hd⟩ :=
    hp.moved (by omega) (by omega) (by omega) (h.quota_le hb)
  refine h.of_moved hm hd ?_ ?_
  · have := sumOver_modifyBack (f := fun sc => sc.resized rz.newQuota)
      (g := fun sc => sc.quota.toNat) hb
    simp only [SubContainer.quota_resized] at this
    show ((ec.modifyBack id fun sc => sc.resized rz.newQuota).totalQuota : Int) = _
    unfold totalQuota
    omega
  · show (ec.modifyBack id fun sc => sc.resized rz.newQuota).fairCpuShare.toNat ≤
      (rz.transfer.apply ec.cpu).totalCpu.toNat
    rw [fairCpuShare_modifyBack, hm.totalCpu]
    exact h.share

/-- Refunding and removing the oldest instance of an id keeps the books. -/
theorem CpuInv.refund {rest : List SubContainer} (h : ec.CpuInv) (hr : ec.InRange)
    (hq : ec.subcontainers.lookup id = some (sc :: rest)) :
    ({ (ec.ecDeleteFromSubcontainersMap id).2.updateFairCpuShare with
        cpu := (ec.cpu.decrAllocRt sc.quota).incrUnallocatedRt sc.quota } :
      ElasticContainer).CpuInv := by
  have hbal := h.balance
  have halloc := h.alloc
  have hdel : (ec.ecDeleteFromSubcontainersMap id).2.totalQuota + sc.quota.toNat =
      ec.totalQuota := sumOver_delete hq
  unfold InRange at hr
  have hamount : amount sc.quota = sc.quota.toNat := amount_of_lt (by omega)
  have hm : ec.cpu.Moved ((ec.cpu.decrAllocRt sc.quota).incrUnallocatedRt sc.quota)
      (-amount sc.quota) (amount sc.quota) 0 :=
    Transfer.give_moved (by omega) (by omega) (by omega) (by omega)
  refine h.of_moved hm (by omega) ?_ ?_
  · show ((ec.ecDeleteFromSubcontainersMap id).2.updateFairCpuShare.totalQuota : Int) = _
    unfold totalQuota at *
    rw [sumOver_updateFairCpuShare]
    omega
  · have := (ec.ecDeleteFromSubcontainersMap id).2.fairCpuShare_updateFairCpuShare_le
    rw [cpu_delete] at this
    exact this

end ElasticContainer

namespace Manager

open ElasticContainer

variable {m m' : Manager} {env : Env} {req : Msg} {id : ContainerId} {sc : SubContainer}

/-- The books, and an accumulator that never asked for a repair. -/
structure CpuBooks (m : Manager) : Prop where
  books : m.ec.CpuBooks
  cpuleak : m.cpuleak ≤ 0

structure CpuInv (m : Manager) : Prop where
  inv : m.ec.CpuInv
  cpuleak : m.cpuleak ≤ 0

theorem CpuInv.of_agentFrame (h : m.CpuInv) (hm : AgentFrame m m') : m'.CpuInv := by
  obtain ⟨scAcMap, quotaRequests, _, rfl⟩ := hm
  exact ⟨h.inv.of_eq rfl rfl rfl, h.cpuleak⟩

/-- Only the container changes, and not its quota. -/
theorem CpuInv.modifyBack {f : SubContainer → SubContainer} (h : m.CpuInv)
    (hf : ∀ sc, (f sc).quota = sc.quota) :
    ({ m with ec := m.ec.modifyBack id f } : Manager).CpuInv := by
  refine ⟨h.inv.of_eq cpu_modifyBack ?_ fairCpuShare_modifyBack, h.cpuleak⟩
  exact sumOver_modifyBack_of_eq fun sc => by rw [hf sc]

/-! ## Admission -/

/-- Whatever the pool can give, an admission charges exactly the quota it hands out. -/
theorem wp_determineQuotaForNewPod {reqQuota : UInt64} {Q : Bool × UInt64 → Manager → Prop}
    {E : Halt → Manager → Prop} (h : m.ec.CpuInv) (hr : m.ec.InRange)
    (hQ : ∀ flag quota c dPool dOverrun,
      m.ec.cpu.Moved c (quota.toNat : Int) dPool dOverrun → quota.toNat + dPool = dOverrun →
      Q (flag, quota) { m with ec := { m.ec with cpu := c } }) :
    wp (determineQuotaForNewPod reqQuota) Q E m := by
  have hbal := h.balance
  have hslice : m.ec.cpu.sliceSize.toNat = 30000000 := by rw [h.slice]; rfl
  unfold InRange at hr
  unfold determineQuotaForNewPod
  rw [wp_bind, wp_get, wp_ite]
  split
  · rename_i hle
    rw [UInt64.le_iff_toNat_le] at hle
    have hamount : amount reqQuota = reqQuota.toNat := amount_of_lt (by omega)
    refine hQ false reqQuota _ (-reqQuota.toNat) 0 ?_ (by omega)
    rw [← hamount]
    exact Transfer.take_moved (by omega) (by omega) (by omega) (by omega)
  · rw [wp_ite]
    split
    · refine hQ true _ _ 0 m.ec.cpu.sliceSize.toNat ?_ (by omega)
      exact Transfer.borrow_moved (by omega) (by omega)
    · refine hQ true m.ec.cpu.unallocatedRt _ (-m.ec.cpu.unallocatedRt.toNat) 0 ?_ (by omega)
      exact
        { allocRt := by
            show ((m.ec.cpu.allocRt + m.ec.cpu.unallocatedRt).toNat : Int) = _
            rw [add_toNat_of_lt (by omega)]
            exact Int.natCast_add _ _
          unallocatedRt := (add_neg_cancel _).symm
          overrun := (add_zero _).symm
          totalCpu := rfl
          sliceSize := rfl
          clipped := rfl }

theorem wp_linkAgent {E : Halt → Manager → Prop} (h : m.CpuInv) :
    wp (linkAgent id) (fun _ => CpuInv) E m := by
  unfold linkAgent
  rw [wp_bind, wp_get]
  cases m.agentsDb.lookup id.serverIp with
  | none => exact h
  | some agent =>
    have h' : ({ m with ec := m.ec.addToScAcMap id agent } : Manager).CpuInv :=
      ⟨h.inv.of_eq rfl rfl rfl, h.cpuleak⟩
    exact h'.modifyBack (f := fun sc => sc.setScInserted true) fun _ => rfl

/-- An admission keeps the books, also when its quota push never comes back. -/
theorem CpuInv.admission {ip : UInt32} {fd : Int} (h : m.CpuInv) (hr : m.ec.InRange) :
    wp (handleAddCgroupToEc env req ip fd) (fun _ => CpuInv) (fun _ => CpuInv) m := by
  unfold handleAddCgroupToEc
  rw [wp_bind]
  refine wp_determineQuotaForNewPod h.inv hr fun flag quota c dPool dOverrun hm hd => ?_
  simp only [wp_bind, modifyEc, wp_modify]
  -- the new container is in the sum, the share is recomputed
  set sc := SubContainer.new req.cgroupId ip fd quota req.request env.now
  set ec := (({ m.ec with cpu := c } : ElasticContainer).insertSc sc).updateFairCpuShare with hec
  have hinv : ({ m with ec := ec } : Manager).CpuInv := by
    have hcpu : ec.cpu = c := by rw [hec, cpu_updateFairCpuShare, cpu_insertSc]
    refine ⟨h.inv.of_moved (hcpu ▸ hm) hd ?_ ?_, h.cpuleak⟩
    · have hsum : ec.totalQuota = m.ec.totalQuota + quota.toNat := by
        rw [hec, totalQuota, sumOver_updateFairCpuShare, sumOver_insertSc]
        rfl
      show (ec.totalQuota : Int) = _
      omega
    · have := (({ m.ec with cpu := c } : ElasticContainer).insertSc
        sc).fairCpuShare_updateFairCpuShare_le
      rw [cpu_insertSc] at this
      rw [hcpu]
      exact this
  refine wp_mono_ret (wp_linkAgent hinv) fun _ m₁ h₁ => ?_
  cases flag with
  | false => exact h₁
  | true =>
    rw [if_pos rfl, wp_bind]
    refine wp_backOf_of (fun sc' _ => ?_) fun _ => h₁
    rw [wp_bind]
    exact wp_setScQuotaSyscall (fun _ => h₁) (fun _ h₂ _ _ => h₁.of_agentFrame h₂)
      (fun _ _ h₂ _ _ => h₁.of_agentFrame h₂)

/-! ## The deployer -/

theorem CpuInv.deletePod {dockerId : String} (h : m.CpuInv) (hr : m.ec.InRange) :
    wp (Manager.deletePod dockerId) (fun _ => CpuInv) (fun _ _ => True) m := by
  refine wp_deletePod h (fun _ => trivial) (fun _ _ _ _ _ _ _ => trivial)
    fun id front rest _ _ hq => ⟨?_, h.cpuleak⟩
  -- dropping the agent link first does not touch the books
  have h₁ : ({ m.ec with scAcMap := m.ec.scAcMap.erase id } : ElasticContainer).CpuInv :=
    h.inv.of_eq rfl rfl rfl
  have h₂ := h₁.refund hr hq
  refine h₂.of_eq ?_ rfl rfl
  show (Global.Cpu.decrAllocRt _ _).incrUnallocatedRt _ = _
  rw [cpu_updateFairCpuShare, cpu_delete]

theorem CpuInv.matchDockerId {scId : ContainerId} {dockerId : String} (h : m.CpuInv) :
    wp (scIdToDockerIdMatcherThread scId dockerId) (fun _ => CpuInv) (fun _ => CpuInv) m :=
  wp_matcher h (h.modifyBack (f := fun sc => sc.setDockerId dockerId) fun _ => rfl)

theorem CpuInv.podSpec {pod : ExportPodSpec} (h : m.CpuInv) :
    wp (reportPodSpec pod) (fun _ => CpuInv) (fun _ => CpuInv) m := by
  have hlock : m.podLocked.CpuInv := ⟨h.inv, h.cpuleak⟩
  refine wp_reportPodSpec h hlock (fun _ => ⟨h.inv, h.cpuleak⟩) fun scId m' hm => ?_
  have h' : m'.CpuInv := by
    rw [hm]
    exact ⟨h.inv, h.cpuleak⟩
  exact h'.modifyBack (f := fun sc => sc.setDockerId pod.dockerId) fun _ => rfl

/-! ## The idle sweep -/

/-- Every idle container has at least the quota the sweep would leave it. -/
def IdleAboveMin (m : Manager) (env : Env) : Prop :=
  ∀ id ∈ m.ec.subcontainers.keys, ∀ sc ∈ m.ec.back? id,
    sc.checkIfIdle env.now = true → minQuota ≤ sc.quota

instance (m : Manager) (env : Env) : Decidable (m.IdleAboveMin env) :=
  inferInstanceAs (Decidable (∀ id ∈ _, _))

theorem IdleAboveMin.quota_le (h : m.IdleAboveMin env) (hb : m.ec.back? id = some sc)
    (hidle : sc.checkIfIdle env.now = true) : minQuota ≤ sc.quota := by
  obtain ⟨l, hl⟩ := lookup_of_back? hb
  exact h id (UnorderedMap.mem_keys_iff_lookup.mpr ⟨_, hl⟩) sc hb hidle

theorem IdleAboveMin.of_quota_le
    (h : ∀ id sc, m.ec.back? id = some sc → sc.checkIfIdle env.now = true → minQuota ≤ sc.quota) :
    m.IdleAboveMin env := fun id _ sc hb => h id sc hb

/-- What the sweep maintains from one container to the next. -/
structure SweepInv (env : Env) (m : Manager) : Prop where
  inv : m.CpuInv
  range : m.ec.InRange
  idle : m.IdleAboveMin env

theorem SweepInv.of_agentFrame (h : SweepInv env m) (hm : AgentFrame m m') : SweepInv env m' where
  inv := h.inv.of_agentFrame hm
  range := by
    obtain ⟨_, _, _, rfl⟩ := hm
    exact h.range
  idle := by
    obtain ⟨_, _, _, rfl⟩ := hm
    exact h.idle

/-- Shrinking one idle container to the minimum. -/
theorem SweepInv.shrink (h : SweepInv env m) (hb : m.ec.back? id = some sc)
    (hle : minQuota ≤ sc.quota) :
    SweepInv env { m with ec :=
      { m.ec.modifyBack id fun sc => sc.resized minQuota with
        cpu := (Transfer.give (sc.quota - minQuota)).apply m.ec.cpu } } := by
  have hsub := UInt64.toNat_sub_of_le _ _ hle
  rw [UInt64.le_iff_toNat_le] at hle
  have hpays : (Resize.mk minQuota (.give (sc.quota - minQuota))).Pays sc.quota m.ec.cpu.overrun
      m.ec.cpu.unallocatedRt.toNat := .give _ _ (by omega)
  refine ⟨⟨h.inv.inv.resize h.range hb hpays, h.inv.cpuleak⟩, h.range, .of_quota_le ?_⟩
  intro id' sc' hb' hidle
  by_cases hid : id' = id
  · subst hid
    have hnew : (m.ec.modifyBack id' fun sc => sc.resized minQuota).back? id' =
        some (sc.resized minQuota) := back?_modifyBack hb
    have hsc : sc' = sc.resized minQuota := Option.some.inj (hb'.symm.trans hnew)
    rw [hsc]
    exact UInt64.le_refl _
  · have hold : (m.ec.modifyBack id fun sc => sc.resized minQuota).back? id' = m.ec.back? id' :=
      back?_modifyBack_ne hid
    exact h.idle.quota_le (hold.symm.trans hb') hidle

theorem wp_checkIdleContainer (h : SweepInv env m) :
    wp (checkIdleContainer env id) (fun _ => SweepInv env) (fun _ => SweepInv env) m := by
  unfold checkIdleContainer
  rw [wp_bind]
  refine wp_backOf_of (fun sc hb => ?_) fun _ => h
  rw [wp_ite]
  split
  · rename_i hidle
    have hle := h.idle.quota_le hb hidle.1
    simp only [wp_bind, wp_get, wp_modify]
    refine wp_applyResize_of (fun _ m' hm => h.of_agentFrame hm) (fun m' hm => ?_) (fun m' hm => ?_)
    · have h' := h.of_agentFrame hm
      exact ⟨⟨h'.inv.inv, h'.inv.cpuleak⟩, h'.range, h'.idle⟩
    · have hb' : m'.ec.back? id = some sc := (hm.back? id).trans hb
      have h' := (h.of_agentFrame hm).shrink hb' hle
      exact ⟨⟨h'.inv.inv, h'.inv.cpuleak⟩, h'.range, h'.idle⟩
  · exact h

theorem CpuInv.idleSweep (h : m.CpuInv) (hr : m.ec.InRange) (hidle : m.IdleAboveMin env) :
    wp (checkForIdleContainers env) (fun _ => CpuInv) (fun _ => CpuInv) m := by
  unfold checkForIdleContainers
  rw [wp_bind, wp_get]
  have hloop : wp (m.ec.subcontainers.keys.forM (checkIdleContainer env))
      (fun _ => SweepInv env) (fun _ => SweepInv env) m :=
    wp_forM ⟨h, hr, hidle⟩ fun _ _ _ ht => wp_checkIdleContainer ht
  exact wp_mono hloop (fun _ _ ht => ht.inv) (fun _ _ ht => ht.inv)

/-! ## Reports -/

/-- The accumulator can still take the next report's `-overrun`. -/
def LeakInRange (m : Manager) : Prop :=
  -2 ^ 63 ≤ m.cpuleak.toInt - m.ec.cpu.overrun.toNat

instance (m : Manager) : Decidable m.LeakInRange := inferInstanceAs (Decidable (_ ≤ _))

/-- With balanced books the shortfall is minus the overrun. -/
theorem CpuInv.leakOf_toInt (h : m.CpuInv) (hr : m.ec.InRange) (hl : m.LeakInRange) :
    (leakOf m.cpuleak m.ec.cpu).toInt = m.cpuleak.toInt - m.ec.cpu.overrun.toNat := by
  have hbal := h.inv.balance
  have hle : m.cpuleak.toInt ≤ 0 := Int64.le_iff_toInt_le.mp h.cpuleak
  unfold InRange at hr
  unfold LeakInRange at hl
  have hsum := add_toNat_of_lt (a := m.ec.cpu.allocRt) (d := m.ec.cpu.unallocatedRt) (by omega)
  have hT : m.ec.cpu.totalCpu.toInt64.toInt = m.ec.cpu.totalCpu.toNat := amount_of_lt (by omega)
  have hS : (m.ec.cpu.allocRt + m.ec.cpu.unallocatedRt).toInt64.toInt =
      m.ec.cpu.allocRt.toNat + m.ec.cpu.unallocatedRt.toNat := by
    have := amount_of_lt (d := m.ec.cpu.allocRt + m.ec.cpu.unallocatedRt) (by omega)
    unfold amount at this
    omega
  have hlow := m.cpuleak.le_toInt
  unfold leakOf
  rw [Int64.toInt_add, Int64.toInt_sub, hT, hS]
  simp only [Int.bmod_def]
  omega

theorem CpuInv.leakOf_nonpos (h : m.CpuInv) (hr : m.ec.InRange) (hl : m.LeakInRange) :
    leakOf m.cpuleak m.ec.cpu ≤ 0 := by
  have hle : m.cpuleak.toInt ≤ 0 := Int64.le_iff_toInt_le.mp h.cpuleak
  have := h.leakOf_toInt hr hl
  rw [Int64.le_iff_toInt_le]
  show _ ≤ (0 : Int)
  omega

/-- **The leak repair does not fire.** -/
theorem CpuInv.leakOf_lt (h : m.CpuInv) (hr : m.ec.InRange) (hl : m.LeakInRange) :
    leakOf m.cpuleak m.ec.cpu < maxCpuLossInNs := by
  have hle : (leakOf m.cpuleak m.ec.cpu).toInt ≤ 0 :=
    Int64.le_iff_toInt_le.mp (h.leakOf_nonpos hr hl)
  rw [Int64.lt_iff_toInt_lt]
  show _ < (1000 : Int)
  omega

theorem CpuInv.fixRtLeak_eq (h : m.CpuInv) (hr : m.ec.InRange) (hl : m.LeakInRange) :
    fixRtLeak m.cpuleak m.ec.cpu = (leakOf m.cpuleak m.ec.cpu, m.ec.cpu) := by
  have hlt := h.leakOf_lt hr hl
  unfold fixRtLeak
  dsimp only
  rw [if_neg]
  rw [Int64.lt_iff_toInt_lt] at hlt
  rw [ge_iff_le, Int64.le_iff_toInt_le]
  omega

/-- A report that carries the recorded quota, and stays clear of the two places where the chain
does not look: overrun recovery with a share below a slice, and a small gap that the pool does
not cover. -/
def HonestReport (m : Manager) (env : Env) (req : Msg) : Prop :=
  ∃ sc ∈ m.ec.back? req.containerId,
    req.rsrcAmnt = sc.quota ∧
    let r := m.chainReading env req sc (sc.stamped env req) m.ec.cpu
    (r.branch = .overrun → r.slice ≤ r.fairCpuShare) ∧
    (r.branch = .fairShare → 0 < r.unallocatedRt →
      r.slice / 2 < r.amntShareLacking ∨ r.amntShareLacking ≤ r.unallocatedRt)

instance (m : Manager) (env : Env) (req : Msg) : Decidable (m.HonestReport env req) :=
  inferInstanceAs (Decidable (∃ sc ∈ _, _ ∧ _ ∧ _))

theorem CpuInv.accepted (h : m.CpuInv) (hr : m.ec.InRange) (hl : m.LeakInRange)
    (hb : m.ec.back? req.containerId = some sc) (env : Env) :
    (m.accepted env req (sc.stamped env req) m.ec.cpu).CpuInv := by
  have hfix := h.fixRtLeak_eq hr hl
  unfold Manager.accepted
  rw [hfix]
  refine ⟨h.inv.of_eq cpu_modifyBack ?_ fairCpuShare_modifyBack, h.leakOf_nonpos hr hl⟩
  have := sumOver_modifyBack (f := fun _ => (sc.stamped env req).sampled env req)
    (g := fun sc => sc.quota.toNat) hb
  simp only [SubContainer.quota_sampled, SubContainer.quota_stamped] at this
  unfold totalQuota
  exact Nat.add_right_cancel this

/-- What the chain decides about an honest report, the pool pays for. -/
theorem CpuInv.chain_pays {rz : Resize} {r : Reading} (h : m.CpuInv) (hr : m.ec.InRange)
    (hb : m.ec.back? id = some sc) (hrx : r.rxQuota = sc.quota)
    (hslice : r.slice = m.ec.cpu.sliceSize) (hpool : r.unallocatedRt = m.ec.cpu.unallocatedRt)
    (hoverrun : r.overrun = m.ec.cpu.overrun) (hshare : r.fairCpuShare = m.ec.fairCpuShare)
    (hover : r.branch = .overrun → r.slice ≤ r.fairCpuShare)
    (hfair : r.branch = .fairShare → 0 < r.unallocatedRt →
      r.slice / 2 < r.amntShareLacking ∨ r.amntShareLacking ≤ r.unallocatedRt)
    (hrz : r.resize = some rz) :
    rz.Pays sc.quota m.ec.cpu.overrun m.ec.cpu.unallocatedRt.toNat := by
  have hquota := h.inv.quota_le hb
  have hbal := h.inv.balance
  have hF := h.inv.share
  unfold InRange at hr
  rw [← hrx, ← hoverrun]
  refine Reading.resize_pays (hslice.trans h.inv.slice) ?_ ?_ (by rw [hpool]) hover
    (fun hbr hpos => ?_) hrz
  · rw [hrx, hpool]
    omega
  · rw [hshare]
    omega
  · rcases hfair hbr hpos with hgap | hgap
    · exact .inl hgap
    · rw [UInt64.le_iff_toNat_le, hpool] at hgap
      exact .inr hgap

theorem CpuInv.report (h : m.CpuInv) (hr : m.ec.InRange) (hl : m.LeakInRange)
    (hreport : m.HonestReport env req) (ht : req.reqType = cpuReq) :
    wp (handleCpuUsageReport env req) (fun _ => CpuInv) (fun _ => CpuInv) m := by
  obtain ⟨sc, hb, hrx, hover, hfair⟩ := hreport
  have hsync : (sc.stamped env req).syncQuota req.rsrcAmnt m.ec.cpu =
      .handled (sc.stamped env req) m.ec.cpu := SubContainer.syncQuota_of_echo hrx
  have hacc := h.accepted hr hl hb env
  have hcpu : (m.accepted env req (sc.stamped env req) m.ec.cpu).ec.cpu = m.ec.cpu := by
    unfold Manager.accepted
    rw [h.fixRtLeak_eq hr hl, cpu_modifyBack]
  have hracc : (m.accepted env req (sc.stamped env req) m.ec.cpu).ec.InRange := by
    unfold InRange
    rw [hcpu]
    exact hr
  have hbacc : (m.accepted env req (sc.stamped env req) m.ec.cpu).ec.back? req.containerId =
      some ((sc.stamped env req).sampled env req) := back?_modifyBack hb
  have hquota : ((sc.stamped env req).sampled env req).quota = req.rsrcAmnt := by
    rw [SubContainer.quota_sampled, SubContainer.quota_stamped, hrx]
  refine wp_handleCpuUsageReport ht hb (fun sc' hs => ?_) (fun sc₁ cpu₁ hs hrz => ?_)
    (fun sc₁ cpu₁ rz hs hrz => ?_)
  all_goals
    rw [hsync] at hs
    cases hs
  · exact ⟨hacc.inv, hacc.cpuleak⟩
  · have hpays := hacc.chain_pays hracc hbacc hquota.symm rfl rfl rfl rfl hover hfair hrz
    refine wp_applyResize_of (fun _ m' hm => hacc.of_agentFrame hm) (fun m' hm => ?_)
      (fun m' hm => ?_)
    · have h' := hacc.of_agentFrame hm
      exact ⟨h'.inv, h'.cpuleak⟩
    · have h' := hacc.of_agentFrame hm
      obtain ⟨_, _, _, rfl⟩ := hm
      exact ⟨h'.inv.resize hracc hbacc hpays, h'.cpuleak⟩

end Manager

end EcGcm
