import EcGcm.Proof.Frames

/-!
# The fair share

`fair_cpu_share` is a cached quotient. It is recomputed when a container connects and when one is
deleted, but not when `ReportAppSpec` changes the total it is a quotient of, so a container that is
there before the application's spec leaves a stale share behind. A share of 0 is a divisor in the
overrun branch of a report.

What the share depends on is collected in `Manager.shareView`. Most events leave all of it alone,
and a CPU report only moves the overrun, which it cannot make positive while the share is 0
(`Manager.Lends`).
-/

set_option autoImplicit false

namespace EcGcm

open Handler Word

/-! ## Who changes the overrun -/

theorem SubContainer.overrun_syncQuota {sc sc' : SubContainer} {q : UInt64}
    {cpu cpu' : Global.Cpu} (h : sc.syncQuota q cpu = .handled sc' cpu') :
    cpu'.overrun = cpu.overrun := by
  unfold syncQuota at h
  dsimp only at h
  split at h
  · split at h
    · unfold adoptQuota at h
      dsimp only at h
      split at h <;> cases h <;> rfl
    · cases h
  · cases h
    rfl

/-- The chain touches the overrun in two branches. One of them needs an overrun, the other a
positive share. -/
theorem Reading.overrun_of_resize {r : Reading} {rz : Resize} {c : Global.Cpu}
    (h : r.resize = some rz) (hover : r.overrun = c.overrun) :
    (rz.transfer.apply c).overrun = 0 ∨ c.overrun ≠ 0 ∨ r.fairCpuShare ≠ 0 := by
  have hsame : c.overrun = 0 ∨ c.overrun ≠ 0 ∨ r.fairCpuShare ≠ 0 :=
    or_iff_not_imp_left.mpr .inl
  unfold resize at h
  split at h
  · unfold wakeUp at h
    dsimp only at h
    split at h <;> cases h
    exact hsame
  · rename_i hbr
    rw [← hover]
    exact .inr (.inl (ne_zero_of_lt (branch_overrun_guard hbr).1))
  · rename_i hbr
    exact .inr (.inr (ne_zero_of_lt (branch_fairShare hbr)))
  · unfold throttleBonus at h
    dsimp only at h
    split at h <;> cases h
    exact hsame
  · unfold giveBackUnused giveBack at h
    dsimp only at h
    split at h <;> cases h
    exact hsame
  · unfold giveBackUnusedMean giveBack at h
    dsimp only at h
    split at h <;> cases h
    exact hsame
  · cases h

/-- The branches that compute a percentage of the share. -/
def Branch.divides : Branch → Bool
  | .overrun => true
  | .fairShare => true
  | _ => false

namespace Manager

open ElasticContainer

variable {m m' : Manager} {env : Env} {id : ContainerId} {req : Msg}

/-- The number of keys of `subcontainers`. -/
def containers (m : Manager) : ℕ := UnorderedMap.size m.ec.subcontainers

/-- The share is the total divided by the number of containers. -/
def ShareCurrent (m : Manager) : Prop :=
  m.containers ≠ 0 → m.ec.fairCpuShare.toNat = m.ec.cpu.totalCpu.toNat / m.containers

instance : Decidable m.ShareCurrent := inferInstanceAs (Decidable (_ → _))

/-- The report gets as far as a branch that divides by the share. -/
def Divides (m : Manager) (env : Env) (req : Msg) : Prop :=
  ∃ sc sc₁ cpu₁, m.ec.back? req.containerId = some sc ∧
    (sc.stamped env req).syncQuota req.rsrcAmnt m.ec.cpu = .handled sc₁ cpu₁ ∧
    (m.chainReading env req sc sc₁ cpu₁).branch.divides = true

/-- The share is current, and no report divides by a share of 0. -/
structure ShareOk (m : Manager) : Prop where
  current : m.ShareCurrent
  nonzero : ∀ env req, req.reqType = cpuReq → m.Divides env req → m.ec.fairCpuShare ≠ 0

/-! ## The condition -/

/-- An admission that has to borrow: the pool is empty. -/
def Borrows (m : Manager) (reqQuota : UInt64) : Prop :=
  ¬ reqQuota ≤ m.ec.cpu.unallocatedRt ∧ m.ec.cpu.unallocatedRt = 0

/-- The number of containers once `id` has connected. -/
def containersWith (m : Manager) (id : ContainerId) : ℕ :=
  if id ∈ m.ec.subcontainers.keys then m.containers else m.containers + 1

/-- A new application spec leaves the quotient as it is, a connection that makes it 0 neither finds
nor makes an overrun, and no deletion has to wait. -/
def ShareSafe (m : Manager) : Event → Prop
  | .appSpec spec => m.containers = 0 ∨
    (spec.cpuLimit * 100000).toNat / m.containers = m.ec.cpu.totalCpu.toNat / m.containers
  | .message _ req hostIp _ => req.reqType = initReq →
    m.containersWith ⟨req.cgroupId, .fromNet hostIp⟩ ≤ m.ec.cpu.totalCpu.toNat ∨
      (m.ec.cpu.overrun = 0 ∧ ¬ m.Borrows req.rsrcAmnt)
  | .deletePod dockerId => m.depPodLock = true → (m.getScIdFromDockerId dockerId).cgroupId = 0
  | _ => True

instance (m : Manager) : (e : Event) → Decidable (m.ShareSafe e)
  | .appSpec _ => inferInstanceAs (Decidable (_ ∨ _))
  | .podSpec _ => .isTrue trivial
  | .matchDockerId .. => .isTrue trivial
  | .deletePod _ => inferInstanceAs (Decidable (_ → _))
  | .message _ req _ _ => by
    unfold ShareSafe Borrows
    exact inferInstanceAs (Decidable (req.reqType = initReq → _ ∨ _))
  | .memLimit .. => .isTrue trivial
  | .idleSweep _ => .isTrue trivial
  | .periodicReclaim _ => .isTrue trivial

instance (m : Manager) (e : Event) : Decidable ((gcm.only ShareSafe).enabled m e) :=
  inferInstanceAs (Decidable (True ∧ m.ShareSafe e))

/-! ## What the share depends on -/

/-- What decides about the share and its use as a divisor. -/
def shareView (m : Manager) : ℕ × UInt64 × UInt64 × UInt64 :=
  (m.containers, m.ec.fairCpuShare, m.ec.cpu.totalCpu, m.ec.cpu.overrun)

/-- Nothing of it changes. -/
def SameShare (m m' : Manager) : Prop := m'.shareView = m.shareView

instance : IsPreorder Manager SameShare where
  refl _ := rfl
  trans _ _ _ h h' := Eq.trans h' h

/-- Only the overrun changes, and it does not become positive while the share is 0. -/
structure Lends (m m' : Manager) : Prop where
  containers : m'.containers = m.containers
  share : m'.ec.fairCpuShare = m.ec.fairCpuShare
  total : m'.ec.cpu.totalCpu = m.ec.cpu.totalCpu
  overrun : m'.ec.cpu.overrun = 0 ∨ m.ec.cpu.overrun ≠ 0 ∨ m.ec.fairCpuShare ≠ 0

theorem Lends.refl (m : Manager) : Lends m m :=
  ⟨rfl, rfl, rfl, or_iff_not_imp_left.mpr fun h => .inl h⟩

instance : IsPreorder Manager Lends where
  refl := Lends.refl
  trans _ _ _ h h' := by
    refine ⟨h'.containers.trans h.containers, h'.share.trans h.share, h'.total.trans h.total, ?_⟩
    rcases h'.overrun with hzero | hpos | hshare
    · exact .inl hzero
    · rcases h.overrun with hzero | h
      · exact absurd hzero hpos
      · exact .inr h
    · rw [h.share] at hshare
      exact .inr (.inr hshare)

theorem SameShare.lends (h : SameShare m m') : Lends m m' := by
  unfold SameShare shareView at h
  simp only [Prod.mk.injEq] at h
  obtain ⟨hcount, hshare, htotal, hover⟩ := h
  exact ⟨hcount, hshare, htotal, by rw [hover]; exact (Lends.refl m).overrun⟩

/-- The share is not used as a divisor while it is 0. -/
def DivisorOk (m : Manager) : Prop :=
  m.containers = 0 ∨ m.ec.fairCpuShare ≠ 0 ∨ m.ec.cpu.overrun = 0

theorem Lends.divisorOk (h : Lends m m') (hd : m.DivisorOk) : m'.DivisorOk := by
  unfold DivisorOk at *
  rw [h.containers, h.share]
  rcases hd with hcount | hshare | hzero
  · exact .inl hcount
  · exact .inr (.inl hshare)
  · rcases h.overrun with h' | h' | h'
    · exact .inr (.inr h')
    · exact absurd hzero h'
    · exact .inr (.inl h')

theorem Lends.shareCurrent (h : Lends m m') (hc : m.ShareCurrent) : m'.ShareCurrent := by
  unfold ShareCurrent at *
  rw [h.containers, h.share, h.total]
  exact hc

theorem containers_modifyBack {f : SubContainer → SubContainer} :
    containers { m with ec := m.ec.modifyBack id f } = m.containers := by
  unfold containers
  dsimp only
  unfold ElasticContainer.modifyBack
  split
  · rename_i q hq
    dsimp only
    rw [UnorderedMap.size_insert, if_pos (UnorderedMap.mem_keys_iff_lookup.mpr ⟨q, hq⟩)]
  · rfl

theorem sameShare_modifyBack {f : SubContainer → SubContainer} :
    SameShare m { m with ec := m.ec.modifyBack id f } := by
  unfold SameShare shareView
  rw [containers_modifyBack]
  dsimp only
  rw [fairCpuShare_modifyBack, cpu_modifyBack]

theorem AgentFrame.sameShare (h : AgentFrame m m') : SameShare m m' := by
  obtain ⟨_, _, _, rfl⟩ := h
  rfl

theorem sameShare_mem : AllowsMem SameShare where
  agent := AgentFrame.sameShare
  limit := sameShare_modifyBack
  mem _ _ := rfl
  lock := rfl

/-! ## Reports and sweeps -/

theorem sameShare_cpu {c : Global.Cpu} (htotal : c.totalCpu = m.ec.cpu.totalCpu)
    (hover : c.overrun = m.ec.cpu.overrun) :
    SameShare m { m with ec := { m.ec with cpu := c } } := by
  unfold SameShare shareView containers
  dsimp only
  rw [htotal, hover]

theorem sameShare_counters {leak seq : Int64} {idleSeq : UInt32} :
    SameShare m { m with
      cpuleak := leak, syscallSequenceNumber := seq, idleContainerSyscallSeqNum := idleSeq } := rfl

theorem sameShare_accepted {sc sc₁ : SubContainer} {cpu₁ : Global.Cpu}
    (hs : (sc.stamped env req).syncQuota req.rsrcAmnt m.ec.cpu = .handled sc₁ cpu₁) :
    SameShare m (m.accepted env req sc₁ cpu₁) := by
  have hcpu := SubContainer.fixed_syncQuota hs
  have hfix := fixed_fixRtLeak m.cpuleak cpu₁
  have hover := (debts_fixRtLeak m.cpuleak cpu₁).1.trans (SubContainer.overrun_syncQuota hs)
  have hleak : SameShare m { m with cpuleak := (fixRtLeak m.cpuleak cpu₁).1 } :=
    sameShare_counters
  have hpool := sameShare_cpu (m := { m with cpuleak := (fixRtLeak m.cpuleak cpu₁).1 })
    (hfix.1.trans hcpu.1) hover
  exact trans_of SameShare (trans_of SameShare hleak hpool) sameShare_modifyBack

/-- A transfer that the chain decides on, seen from the share. -/
theorem lends_transfer {r : Reading} {rz : Resize} (hrz : r.resize = some rz)
    (hshare : r.fairCpuShare = m.ec.fairCpuShare) (hover : r.overrun = m.ec.cpu.overrun) :
    Lends m { m with ec :=
      { m.ec.modifyBack id fun sc => sc.resized rz.newQuota with
        cpu := rz.transfer.apply m.ec.cpu } } := by
  refine ⟨containers_modifyBack, fairCpuShare_modifyBack, (rz.transfer.fixed_apply _).1, ?_⟩
  have h := Reading.overrun_of_resize hrz (c := m.ec.cpu) hover
  rw [hshare] at h
  exact h

theorem lends_handleCpuUsageReport : Keeps Lends (handleCpuUsageReport env req) := by
  refine keeps_of_wp fun m => ?_
  by_cases ht : req.reqType = cpuReq
  · cases hb : m.ec.back? req.containerId with
    | none => exact wp_handleCpuUsageReport_of_absent ht hb fun _ => Lends.refl m
    | some sc =>
      refine wp_handleCpuUsageReport ht hb (fun sc' _ => sameShare_modifyBack.lends)
        (fun sc₁ cpu₁ hs _ => ?_) (fun sc₁ cpu₁ rz hs hrz => ?_)
      · exact (trans_of SameShare (sameShare_accepted hs) sameShare_counters).lends
      · have hacc := sameShare_accepted hs
        refine wp_applyResize_of (fun _ m' hm => ?_) (fun m' hm => ?_) (fun m' hm => ?_)
        · exact (trans_of SameShare hacc hm.sameShare).lends
        · exact (trans_of SameShare (trans_of SameShare hacc hm.sameShare) sameShare_counters).lends
        · have hm' := (trans_of SameShare hacc hm.sameShare).lends
          obtain ⟨_, _, _, rfl⟩ := hm
          exact trans_of Lends (trans_of Lends hm' (lends_transfer hrz rfl rfl))
            sameShare_counters.lends
  · unfold handleCpuUsageReport
    rw [wp_ite, if_pos ht]
    exact Lends.refl m

theorem sameShare_checkForIdleContainers : Keeps SameShare (checkForIdleContainers env) := by
  refine keeps_bind keeps_get fun m => keeps_forM _ fun id => ?_
  refine keeps_bind keeps_backOf fun sc => keeps_ite ?_ (keeps_pure _)
  refine keeps_bind keeps_get fun m => keeps_bind ?_ fun _ => keeps_modify fun _ =>
    sameShare_counters
  refine keeps_bind (keeps_setScQuotaSyscall AgentFrame.sameShare) fun ret =>
    keeps_ite (keeps_pure _) ?_
  refine keeps_bind (keeps_modify fun m => sameShare_modifyBack) fun _ => keeps_modify fun m => ?_
  exact sameShare_cpu rfl rfl

/-! ## Recomputing the share -/

theorem containers_le : m.containers ≤ 2 ^ 64 := by
  let code : ContainerId → ℕ := fun id => id.cgroupId.toNat * 2 ^ 32 + id.serverIp.addr.toNat
  have hinj : Function.Injective code := by
    rintro ⟨c, ⟨a⟩⟩ ⟨c', ⟨a'⟩⟩ h
    have := a.toNat_lt
    have := a'.toNat_lt
    have hc : c = c' := UInt32.toNat_inj.mp (by dsimp only [code] at h; omega)
    have ha : a = a' := UInt32.toNat_inj.mp (by dsimp only [code] at h; omega)
    rw [hc, ha]
  refine UnorderedMap.size_le_of_injective hinj fun id => ?_
  have := id.cgroupId.toNat_lt
  have := id.serverIp.addr.toNat_lt
  dsimp only [code]
  omega

/-- The divisor is the number of keys as a word, which is 0 when all `2^64` ids are taken; the
quotient is 0 then as well. -/
theorem shareCurrent_updateFairCpuShare :
    ShareCurrent { m with ec := m.ec.updateFairCpuShare } := by
  intro hne
  unfold containers at *
  dsimp only at *
  rw [subcontainers_updateFairCpuShare] at *
  rw [cpu_updateFairCpuShare]
  unfold updateFairCpuShare
  rw [if_neg (by simpa [UnorderedMap.size] using hne)]
  show (m.ec.cpu.totalCpu / UInt64.ofNat m.containers).toNat = _
  rw [UInt64.toNat_div, UInt64.toNat_ofNat']
  rcases containers_le.lt_or_eq with hlt | heq
  · rw [Nat.mod_eq_of_lt hlt]
    rfl
  · rw [heq, Nat.mod_self, Nat.div_zero]
    refine (Nat.div_eq_of_lt ?_).symm
    exact lt_of_lt_of_eq m.ec.cpu.totalCpu.toNat_lt heq.symm

/-- The share is current and is not a divisor of 0. -/
structure ShareInv (m : Manager) : Prop where
  current : m.ShareCurrent
  divisor : m.DivisorOk

theorem Lends.shareInv (h : Lends m m') (hm : m.ShareInv) : m'.ShareInv :=
  ⟨h.shareCurrent hm.current, h.divisorOk hm.divisor⟩

/-- A share that is current is positive when there is CPU for every container. -/
theorem ShareCurrent.ne_zero (h : m.ShareCurrent) (hne : m.containers ≠ 0)
    (hle : m.containers ≤ m.ec.cpu.totalCpu.toNat) : m.ec.fairCpuShare ≠ 0 := by
  intro hzero
  have hquot := h hne
  rw [hzero] at hquot
  have := Nat.div_pos hle (Nat.pos_of_ne_zero hne)
  have : (0 : UInt64).toNat = 0 := rfl
  omega

theorem ShareCurrent.le_total (h : m.ShareCurrent) (hne : m.containers ≠ 0)
    (hshare : m.ec.fairCpuShare ≠ 0) : m.containers ≤ m.ec.cpu.totalCpu.toNat := by
  by_contra hlt
  have hquot := h hne
  rw [Nat.div_eq_of_lt (not_le.mp hlt)] at hquot
  exact hshare (UInt64.toNat_inj.mp hquot)

/-! ## Connections and deletions -/

/-- The overrun grows at an admission only when it borrows. -/
theorem wp_determineQuotaForNewPod_overrun {reqQuota : UInt64}
    {Q : Bool × UInt64 → Manager → Prop} {E : Halt → Manager → Prop}
    (hQ : ∀ r (cpu : Global.Cpu), cpu.totalCpu = m.ec.cpu.totalCpu →
      (cpu.overrun = m.ec.cpu.overrun ∨ m.Borrows reqQuota) →
      Q r { m with ec := { m.ec with cpu := cpu } }) :
    wp (determineQuotaForNewPod reqQuota) Q E m := by
  unfold determineQuotaForNewPod
  rw [wp_bind, wp_get, wp_ite]
  split
  · exact hQ _ _ rfl (.inl rfl)
  · rename_i hle
    rw [wp_ite]
    split
    · rename_i hzero
      exact hQ _ _ rfl (.inr ⟨hle, hzero⟩)
    · exact hQ _ _ rfl (.inl rfl)

theorem containers_insertSc {cpu : Global.Cpu} {sc : SubContainer} :
    containers { m with ec := ({ m.ec with cpu := cpu } : ElasticContainer).insertSc sc } =
      m.containersWith sc.cId := by
  unfold containers containersWith insertSc
  dsimp only
  split
  · exact UnorderedMap.size_insert ..
  · exact UnorderedMap.size_insert ..

theorem containersWith_ne_zero : m.containersWith id ≠ 0 := by
  unfold containersWith
  split
  · rename_i h
    exact (List.length_pos_of_mem h).ne'
  · exact Nat.succ_ne_zero _

/-- The manager once a new instance is registered and counted into the share. -/
def withInstance (m : Manager) (cpu : Global.Cpu) (sc : SubContainer) : Manager :=
  { m with ec := (({ m.ec with cpu := cpu } : ElasticContainer).insertSc sc).updateFairCpuShare }

section WithInstance

variable {cpu : Global.Cpu} {sc : SubContainer}

theorem containers_withInstance : (m.withInstance cpu sc).containers = m.containersWith sc.cId := by
  refine Eq.trans ?_ (containers_insertSc : containers { m with
    ec := ({ m.ec with cpu := cpu } : ElasticContainer).insertSc sc } = _)
  unfold containers withInstance
  dsimp only
  rw [subcontainers_updateFairCpuShare]

theorem cpu_withInstance : (m.withInstance cpu sc).ec.cpu = cpu := by
  unfold withInstance
  dsimp only
  rw [cpu_updateFairCpuShare, cpu_insertSc]

theorem shareCurrent_withInstance : (m.withInstance cpu sc).ShareCurrent :=
  shareCurrent_updateFairCpuShare
    (m := { m with ec := ({ m.ec with cpu := cpu } : ElasticContainer).insertSc sc })

theorem share_withInstance : (m.withInstance cpu sc).ec.fairCpuShare.toNat =
    cpu.totalCpu.toNat / m.containersWith sc.cId := by
  have hcurrent : (m.withInstance cpu sc).ShareCurrent := shareCurrent_withInstance
  unfold ShareCurrent at hcurrent
  rw [containers_withInstance, cpu_withInstance] at hcurrent
  exact hcurrent containersWith_ne_zero

end WithInstance

theorem sameShare_linkAgent : Keeps SameShare (linkAgent id) := by
  refine keeps_bind keeps_get fun m => ?_
  split
  · exact keeps_bind (keeps_modify fun _ => rfl) fun _ => keeps_modify fun _ => sameShare_modifyBack
  · exact keeps_pure _

theorem ShareInv.admission {ip : UInt32} {fd : Int}
    (hsafe : m.containersWith ⟨req.cgroupId, .fromNet ip⟩ ≤ m.ec.cpu.totalCpu.toNat ∨
      (m.ec.cpu.overrun = 0 ∧ ¬ m.Borrows req.rsrcAmnt)) :
    wp (handleAddCgroupToEc env req ip fd) (fun _ => ShareInv) (fun _ => ShareInv) m := by
  unfold handleAddCgroupToEc
  rw [wp_bind]
  refine wp_determineQuotaForNewPod_overrun fun r cpu htotal hover => ?_
  simp only [wp_bind, modifyEc, wp_modify]
  have hinv : ShareInv (m.withInstance cpu (.new req.cgroupId ip fd r.2 req.request env.now)) := by
    refine ⟨shareCurrent_withInstance, ?_⟩
    rcases hsafe with hle | ⟨hzero, hborrow⟩
    · refine .inr (.inl (shareCurrent_withInstance.ne_zero ?_ ?_))
      · rw [containers_withInstance]
        exact containersWith_ne_zero
      · rw [containers_withInstance, cpu_withInstance, htotal]
        exact hle
    · refine .inr (.inr ?_)
      rw [cpu_withInstance, hover.resolve_right hborrow]
      exact hzero
  refine wp_mono (sameShare_linkAgent.wp _) (fun _ m₁ h₁ => ?_) (fun _ m₁ h₁ => ?_)
  · cases r.1 with
    | false => exact h₁.lends.shareInv hinv
    | true =>
      rw [if_pos rfl, wp_bind]
      refine wp_backOf_of (fun sc' _ => ?_) fun _ => h₁.lends.shareInv hinv
      rw [wp_bind]
      refine wp_setScQuotaSyscall (fun _ => h₁.lends.shareInv hinv) (fun m₂ h₂ _ _ => ?_)
        (fun m₂ _ h₂ _ _ => ?_)
      all_goals exact (trans_of SameShare h₁ h₂.sameShare).lends.shareInv hinv
  · exact h₁.lends.shareInv hinv

theorem containers_afterDelete {dockerId : String} {front : SubContainer}
    {rest : List SubContainer} (hq : m.ec.subcontainers.lookup id = some (front :: rest)) :
    (m.afterDelete dockerId id front).containers ≤ m.containers := by
  have hmem : id ∈ m.ec.subcontainers.keys := UnorderedMap.mem_keys_iff_lookup.mpr ⟨_, hq⟩
  unfold containers afterDelete
  dsimp only
  rw [subcontainers_updateFairCpuShare]
  unfold ecDeleteFromSubcontainersMap
  simp only [hq]
  split
  · rw [UnorderedMap.size_insert, if_pos hmem]
  · rw [UnorderedMap.size_erase, if_pos hmem]
    exact Nat.sub_le _ _

theorem ShareInv.afterDelete {dockerId : String} {front : SubContainer}
    {rest : List SubContainer} (h : m.ShareInv)
    (hq : m.ec.subcontainers.lookup id = some (front :: rest)) :
    (m.afterDelete dockerId id front).ShareInv := by
  have hcurrent : (m.afterDelete dockerId id front).ShareCurrent := by
    have hec := shareCurrent_updateFairCpuShare (m := { m with ec :=
      (({ m.ec with scAcMap := m.ec.scAcMap.erase id } :
        ElasticContainer).ecDeleteFromSubcontainersMap id).2 })
    exact hec
  refine ⟨hcurrent, ?_⟩
  have hcount : m.containers ≠ 0 := (UnorderedMap.size_pos_of_lookup hq).ne'
  have htotal : (m.afterDelete dockerId id front).ec.cpu.totalCpu = m.ec.cpu.totalCpu := by
    rw [cpu_afterDelete]
    rfl
  rcases h.divisor with hzero | hshare | hover
  · exact absurd hzero hcount
  · by_cases hnone : (m.afterDelete dockerId id front).containers = 0
    · exact .inl hnone
    · refine .inr (.inl (hcurrent.ne_zero hnone ?_))
      rw [htotal]
      exact (containers_afterDelete hq).trans (h.current.le_total hcount hshare)
  · refine .inr (.inr ?_)
    rw [cpu_afterDelete]
    exact hover

/-! ## Runs -/

section AppLimits

variable {totalCpu pages : UInt64}

theorem shareCurrent_withAppLimits : (m.withAppLimits totalCpu pages).ShareCurrent ↔
    (m.containers ≠ 0 → m.ec.fairCpuShare.toNat = totalCpu.toNat / m.containers) := Iff.rfl

theorem divisorOk_withAppLimits : (m.withAppLimits totalCpu pages).DivisorOk ↔ m.DivisorOk :=
  Iff.rfl

end AppLimits

theorem shareCurrent_reportAppSpec {spec : ExportAppSpec} (h : m.ShareCurrent)
    (hsafe : m.ShareSafe (.appSpec spec)) :
    wp (reportAppSpec spec) (fun _ => ShareCurrent) (fun _ => ShareCurrent) m := by
  rw [wp_of_run run_reportAppSpec, shareCurrent_withAppLimits]
  intro hne
  rcases hsafe with hzero | hsame
  · exact absurd hzero hne
  · exact (h hne).trans hsame.symm

theorem divisorOk_reportAppSpec {spec : ExportAppSpec} (h : m.DivisorOk) :
    wp (reportAppSpec spec) (fun _ => DivisorOk) (fun _ => DivisorOk) m := by
  rw [wp_of_run run_reportAppSpec, divisorOk_withAppLimits]
  exact h

theorem ShareInv.handle {e : Event} (h : m.ShareInv) (hsafe : m.ShareSafe e) :
    wp e.handle (fun _ => ShareInv) (fun _ => ShareInv) m := by
  have hkeeps : ∀ {α : Type} {x : M α}, Keeps Lends x →
      wp x (fun _ => ShareInv) (fun _ => ShareInv) m := by
    intro α x hx
    exact wp_mono (hx.wp m) (fun _ _ hm => hm.shareInv h) (fun _ _ hm => hm.shareInv h)
  have hsame : ∀ {α : Type} {x : M α}, Keeps SameShare x →
      wp x (fun _ => ShareInv) (fun _ => ShareInv) m := fun hx => hkeeps fun s => (hx s).lends
  cases e with
  | appSpec spec =>
    refine (wp_bind ..).mpr ?_
    exact ⟨shareCurrent_reportAppSpec h.current hsafe, divisorOk_reportAppSpec h.divisor⟩
  | podSpec pod =>
    have hlock : m.podLocked.ShareInv := ⟨h.current, h.divisor⟩
    refine (wp_bind ..).mpr (wp_reportPodSpec h hlock (fun _ => ⟨h.current, h.divisor⟩) ?_)
    intro scId m' hm
    have h' : m'.ShareInv := by
      rw [hm]
      exact ⟨h.current, h.divisor⟩
    exact sameShare_modifyBack.lends.shareInv h'
  | matchDockerId scId dockerId => exact wp_matcher h (sameShare_modifyBack.lends.shareInv h)
  | deletePod dockerId =>
    refine (wp_bind ..).mpr (wp_deletePod h (fun _ => h) (fun id _ _ hlocked hid hne _ => ?_)
      fun _ _ _ _ _ hq => h.afterDelete hq)
    exact absurd (hid ▸ hsafe hlocked) hne
  | memLimit env id clifd =>
    exact wp_inThread.mpr (hsame sameShare_mem.determineMemLimitForNewPod)
  | idleSweep env => exact hsame sameShare_checkForIdleContainers
  | periodicReclaim env => exact wp_inThread.mpr (hsame sameShare_mem.periodicReclaim)
  | message env req hostIp clifd =>
    refine wp_inThread.mpr ((wp_bind ..).mpr ?_)
    show wp (handleReq env req hostIp clifd) (fun _ => ShareInv) _ m
    unfold handleReq
    rw [wp_ite]
    split
    · exact hsame sameShare_mem.handleMemReq
    · rw [wp_ite]
      split
      · exact hkeeps lends_handleCpuUsageReport
      · rw [wp_ite]
        split
        · rename_i ht
          exact ShareInv.admission (hsafe ht)
        · exact h

theorem ShareInv.ok (h : m.ShareInv) : m.ShareOk := by
  refine ⟨h.current, ?_⟩
  rintro env req _ ⟨sc, sc₁, cpu₁, hb, hs, hdivides⟩
  have hview := sameShare_accepted (m := m) hs
  unfold SameShare shareView at hview
  simp only [Prod.mk.injEq] at hview
  obtain ⟨_, hshare, _, hover⟩ := hview
  obtain ⟨l, hl⟩ := lookup_of_back? hb
  have hcount : m.containers ≠ 0 := (UnorderedMap.size_pos_of_lookup hl).ne'
  cases hbr : (m.chainReading env req sc sc₁ cpu₁).branch with
  | overrun =>
    have hpos : (m.accepted env req sc₁ cpu₁).ec.cpu.overrun ≠ 0 :=
      ne_zero_of_lt (Reading.branch_overrun_guard hbr).1
    rcases h.divisor with hzero | hne | hzero
    · exact absurd hzero hcount
    · exact hne
    · exact absurd (hover.trans hzero) hpos
  | fairShare =>
    have hpos : (m.accepted env req sc₁ cpu₁).ec.fairCpuShare ≠ 0 :=
      ne_zero_of_lt (Reading.branch_fairShare hbr)
    exact hshare ▸ hpos
  | wakeUp => rw [hbr] at hdivides; cases hdivides
  | throttled => rw [hbr] at hdivides; cases hdivides
  | unused => rw [hbr] at hdivides; cases hdivides
  | unusedMean => rw [hbr] at hdivides; cases hdivides
  | keep => rw [hbr] at hdivides; cases hdivides

/-- **The share is current and never a zero divisor**, in every state of a run in which no
application spec changes the quotient under registered containers and no connection makes it 0
while something has been, or has to be, borrowed. -/
theorem shareOk_of_run {db : UnorderedMap Ip4Addr AgentClient}
    (hrun : (gcm.only ShareSafe).Run (.new db) m) : m.ShareOk := by
  have hinv : m.ShareInv := by
    refine System.invariant (I := ShareInv) ⟨fun hne => absurd rfl hne, .inl rfl⟩ ?_ hrun
    intro e t t' ht hen hnext
    exact resume_of_wp (ht.handle hen.2) hnext
  exact hinv.ok

/-- Two containers and a deletion, after the spec. -/
theorem shareOk_after_deletion :
    ∃ m, (gcm.only ShareSafe).Run (.new oneAgent) m ∧ m.containers = 1 ∧ m.ShareOk := by
  have hreplay : (((gcm.only ShareSafe).replay
      [.appSpec ⟨1000, 100⟩, connect 1 8, .podSpec (specOf 1 "a"), connect 2 9, .deletePod "a"]
      (.new oneAgent)).any fun m => m.containers = 1) = true := by
    decide +kernel
  obtain ⟨m, hrun, hone⟩ := System.exists_run_of_replay hreplay
  exact ⟨m, hrun, of_decide_eq_true hone, shareOk_of_run hrun⟩

/-- A container that connects before the application's spec leaves a share of 0 behind. -/
theorem share_stale_after_spec :
    ¬ ∀ (db : UnorderedMap Ip4Addr AgentClient) (m : Manager), gcm.Run (.new db) m →
      m.ShareOk := by
  intro hclaim
  have hreplay : ((gcm.replay [connect 1 8, .appSpec ⟨1000, 100⟩] (.new oneAgent)).any
      fun m => ¬ m.ShareCurrent) = true := by
    decide +kernel
  obtain ⟨m, hrun, hstale⟩ := System.exists_run_of_replay hreplay
  exact of_decide_eq_true hstale (hclaim oneAgent m hrun).current

end Manager

end EcGcm
