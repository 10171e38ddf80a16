import EcGcm.Proof.Grants

/-!
# When a report overrides the record

A report whose quota differs from the record is dropped three times and adopted the fourth time
("mismatch stuck"). The times are counted by `quota_mismatch_counter`, which is reset when a report
is adopted and at no other time: a report that agrees with the record leaves it alone. Mismatches
that are days apart therefore add up.

A **watch** follows the whole process and notes, for every container, how many of its last reports
in a row were mismatches. The counter is at most that number as long as no report agrees with the
record while something has been counted (`CountsOk`), and then only a mismatch that is stuck
overrides the record (`stuck_mismatch_of_run`).
-/

set_option autoImplicit false

namespace EcGcm

open Handler

namespace SubContainer

variable {sc sc' : SubContainer} {rx : UInt64} {cpu cpu' : Global.Cpu} {req : Msg}

/-- What a report that is dropped adds to the count. -/
theorem counter_syncQuota_dropped (h : sc.syncQuota rx cpu = .dropped sc') :
    sc.quotaMismatch rx = true ∧ sc'.quotaMismatchCounter = sc.quotaMismatchCounter + 1 := by
  unfold syncQuota at h
  dsimp only at h
  split at h
  · rename_i hmismatch
    split at h
    · cases h
    · cases h
      exact ⟨hmismatch, rfl⟩
  · cases h

theorem quotaMismatchCounter_adoptQuota : (sc.adoptQuota rx cpu).1.quotaMismatchCounter = 0 := by
  unfold adoptQuota
  dsimp only
  split <;> rfl

/-- A report that is handled agrees with the record, or overrides it and starts the count anew. -/
theorem counter_syncQuota_handled (h : sc.syncQuota rx cpu = .handled sc' cpu') :
    (sc.quotaMismatch rx = false ∧ sc' = sc) ∨
      (sc.Adopts rx ∧ sc'.quotaMismatchCounter = 0) := by
  by_cases hmismatch : sc.quotaMismatch rx = true
  · by_cases hseen : sc.quotaMismatchCounter > 2
    · rw [syncQuota_of_adopts ⟨hmismatch, hseen⟩] at h
      cases h
      exact .inr ⟨⟨hmismatch, hseen⟩, quotaMismatchCounter_adoptQuota⟩
    · unfold syncQuota at h
      rw [if_pos hmismatch] at h
      change (if sc.quotaMismatchCounter > 2 then _ else _) = _ at h
      rw [if_neg hseen] at h
      cases h
  · rw [Bool.not_eq_true] at hmismatch
    rw [syncQuota_of_agree hmismatch] at h
    cases h
    exact .inl ⟨hmismatch, rfl⟩

end SubContainer

namespace Manager

open ElasticContainer

variable {m m' t : Manager} {env : Env} {id : ContainerId} {sc : SubContainer} {req : Msg}
  {f : SubContainer → SubContainer}

/-! ## Who counts

Only reports count. Every other handler leaves the count of the instances it leaves. -/

/-- Every newest instance of `m'` is one of `m`, with the same count. -/
def KeepsCounts (m m' : Manager) : Prop :=
  ∀ id sc', m'.ec.back? id = some sc' →
    ∃ sc, m.ec.back? id = some sc ∧ sc'.quotaMismatchCounter = sc.quotaMismatchCounter

instance : IsPreorder Manager KeepsCounts where
  refl _ _ sc' hb := ⟨sc', hb, rfl⟩
  trans _ _ _ h h' id sc' hb := by
    obtain ⟨sc₁, hb₁, heq₁⟩ := h' id sc' hb
    obtain ⟨sc₂, hb₂, heq₂⟩ := h id sc₁ hb₁
    exact ⟨sc₂, hb₂, heq₁.trans heq₂⟩

theorem KeepsCounts.of_subcontainers (h : m'.ec.subcontainers = m.ec.subcontainers) :
    KeepsCounts m m' := by
  intro id sc' hb
  unfold ElasticContainer.back? at hb
  rw [h] at hb
  exact ⟨sc', hb, rfl⟩

theorem AgentFrame.keepsCounts (h : AgentFrame m m') : KeepsCounts m m' :=
  .of_subcontainers h.subcontainers

theorem KeepsCounts.modifyBack
    (hf : ∀ sc, (f sc).quotaMismatchCounter = sc.quotaMismatchCounter) :
    KeepsCounts m { m with ec := m.ec.modifyBack id f } := by
  intro id' sc' hb
  by_cases heq : id' = id
  · subst heq
    have hmap : (m.ec.modifyBack id' f).back? id' = some sc' := hb
    rw [back?_modifyBack_map] at hmap
    obtain ⟨sc, hsc, rfl⟩ := Option.map_eq_some_iff.mp hmap
    exact ⟨sc, hsc, hf sc⟩
  · have hsame : (m.ec.modifyBack id f).back? id' = some sc' := hb
    rw [back?_modifyBack_ne heq] at hsame
    exact ⟨sc', hsame, rfl⟩

theorem keepsCounts_mem : AllowsMem KeepsCounts where
  agent := AgentFrame.keepsCounts
  limit := .modifyBack fun _ => rfl
  mem _ _ := .of_subcontainers rfl
  lock := .of_subcontainers rfl

theorem keepsCounts_applyResize {seqNumber : UInt32} {rz : Resize} :
    Keeps KeepsCounts (applyResize env id sc seqNumber rz) := by
  refine keeps_bind (keeps_setScQuotaSyscall AgentFrame.keepsCounts) fun ret => ?_
  refine keeps_ite (keeps_pure _) ?_
  refine keeps_bind (keeps_modify fun m => .modifyBack fun _ => rfl) fun _ => ?_
  exact keeps_modify fun m => .of_subcontainers rfl

theorem keepsCounts_checkForIdleContainers : Keeps KeepsCounts (checkForIdleContainers env) := by
  refine keeps_bind keeps_get fun m => keeps_forM _ fun id => ?_
  refine keeps_bind keeps_backOf fun sc => keeps_ite ?_ (keeps_pure _)
  refine keeps_bind keeps_get fun m => keeps_bind keepsCounts_applyResize fun _ => ?_
  exact keeps_modify fun _ => .of_subcontainers rfl

theorem keepsCounts_reportAppSpec {spec : ExportAppSpec} :
    Keeps KeepsCounts (reportAppSpec spec) := by
  intro m
  rw [run_reportAppSpec]
  exact .of_subcontainers rfl

/-- The oldest instance goes; the newest stays, or was the oldest. -/
theorem keepsCounts_delete {front : SubContainer} {rest : List SubContainer}
    (hq : m.ec.subcontainers.lookup id = some (front :: rest))
    (hafter : ∀ id', m'.ec.subcontainers.lookup id' =
      if id' = id then (if rest = [] then none else some rest)
      else m.ec.subcontainers.lookup id') : KeepsCounts m m' := by
  intro id' sc' hb
  refine ⟨sc', ?_, rfl⟩
  unfold ElasticContainer.back? at hb ⊢
  rw [hafter] at hb
  by_cases heq : id' = id
  · subst heq
    rw [if_pos rfl] at hb
    rw [hq, Option.bind_some]
    cases rest with
    | nil => exact absurd hb (by simp)
    | cons sc₁ rest =>
      rw [List.getLast?_cons_cons]
      exact hb
  · rw [if_neg heq] at hb
    exact hb

theorem keepsCounts_deletePod {dockerId : String} :
    Keeps KeepsCounts (Manager.deletePod dockerId) :=
  keeps_of_wp fun m => wp_deletePod (refl_of KeepsCounts m) (fun _ => refl_of KeepsCounts m)
    (fun _ _ _ _ _ _ hq => keepsCounts_delete hq fun _ => lookup_halfDeleted hq)
    fun _ _ _ _ _ hq => keepsCounts_delete hq fun _ => lookup_afterDelete hq

theorem keepsCounts_setDockerId {dockerId : String} :
    KeepsCounts m { m with ec := m.ec.modifyBack id fun sc => sc.setDockerId dockerId } :=
  .modifyBack fun _ => rfl

theorem keepsCounts_reportPodSpec {pod : ExportPodSpec} :
    Keeps KeepsCounts (reportPodSpec pod) := by
  refine keeps_of_wp fun m => wp_reportPodSpec (refl_of KeepsCounts m)
    (.of_subcontainers rfl) (fun _ => .of_subcontainers rfl) ?_
  intro scId m' hm
  have hspec : KeepsCounts m m' := .of_subcontainers (by rw [hm]; rfl)
  exact trans_of KeepsCounts hspec keepsCounts_setDockerId

theorem keepsCounts_linkAgent : Keeps KeepsCounts (linkAgent id) := by
  refine keeps_bind keeps_get fun m => ?_
  split
  · refine keeps_bind (keeps_modify fun _ => .of_subcontainers rfl) fun _ => ?_
    exact keeps_modify fun _ => .modifyBack fun _ => rfl
  · exact keeps_pure _

/-- `m'` has what `m` had, but for the newest instance of `id`, whose count is at most `n`. -/
def CountsAt (m : Manager) (id : ContainerId) (n : ℕ) (m' : Manager) : Prop :=
  ∀ id' sc', m'.ec.back? id' = some sc' →
    if id' = id then sc'.quotaMismatchCounter ≤ n
    else ∃ sc, m.ec.back? id' = some sc ∧ sc'.quotaMismatchCounter = sc.quotaMismatchCounter

theorem CountsAt.trans {n : ℕ} (h : CountsAt m id n t) (h' : KeepsCounts t m') :
    CountsAt m id n m' := by
  intro id' sc' hb
  obtain ⟨sc₁, hb₁, heq⟩ := h' id' sc' hb
  have hat := h id' sc₁ hb₁
  split at hat
  · rename_i hid
    rw [if_pos hid, heq]
    exact hat
  · rename_i hid
    obtain ⟨sc, hsc, heq₂⟩ := hat
    rw [if_neg hid]
    exact ⟨sc, hsc, heq.trans heq₂⟩

/-- A write to the newest instance of `id` counts there at most. -/
theorem CountsAt.modifyBack {n : ℕ} {t : Manager}
    (hsame : t.ec.subcontainers = m.ec.subcontainers)
    (hn : ∀ sc ∈ m.ec.back? id, (f sc).quotaMismatchCounter ≤ n) :
    CountsAt m id n { t with ec := t.ec.modifyBack id f } := by
  have hback : ∀ id', t.ec.back? id' = m.ec.back? id' := by
    intro id'
    unfold ElasticContainer.back?
    rw [hsame]
  intro id' sc' hb
  split
  · rename_i heq
    subst heq
    have hmap : (t.ec.modifyBack id' f).back? id' = some sc' := hb
    rw [back?_modifyBack_map, hback] at hmap
    obtain ⟨sc, hsc, rfl⟩ := Option.map_eq_some_iff.mp hmap
    exact hn sc hsc
  · rename_i hne
    have hsame' : (t.ec.modifyBack id f).back? id' = some sc' := hb
    rw [back?_modifyBack_ne hne, hback] at hsame'
    exact ⟨sc', hsame', rfl⟩

theorem back?_insertSc_ne {ec : ElasticContainer} (hne : id ≠ sc.cId) :
    (ec.insertSc sc).back? id = ec.back? id := by
  unfold insertSc ElasticContainer.back?
  split
  · dsimp only
    rw [AList.lookup_insert_ne hne]
  · dsimp only
    rw [AList.lookup_insert_ne hne]

/-- A new instance has counted nothing. -/
theorem countsAt_handleAddCgroupToEc {ip : UInt32} {fd : Int} :
    wp (handleAddCgroupToEc env req ip fd) (fun _ => CountsAt m ⟨req.cgroupId, .fromNet ip⟩ 0)
      (fun _ => CountsAt m ⟨req.cgroupId, .fromNet ip⟩ 0) m := by
  unfold handleAddCgroupToEc
  rw [wp_bind]
  refine wp_determineQuotaForNewPod_of fun r cpu => ?_
  simp only [wp_bind, modifyEc, wp_modify]
  generalize hsc : SubContainer.new req.cgroupId ip fd r.2 req.request env.now = sc
  have hid : sc.cId = ⟨req.cgroupId, .fromNet ip⟩ := by rw [← hsc]; rfl
  have hzero : sc.quotaMismatchCounter = 0 := by rw [← hsc]; rfl
  rw [← hid]
  -- the new instance is the newest one under its id, and nobody else has moved
  have hstart : CountsAt m sc.cId 0 { m with
      ec := (({ m.ec with cpu := cpu } : ElasticContainer).insertSc sc).updateFairCpuShare } := by
    intro id' sc' hb
    have hb' :
        (({ m.ec with cpu := cpu } : ElasticContainer).insertSc sc).back? id' = some sc' := by
      unfold ElasticContainer.back? at hb ⊢
      rw [subcontainers_updateFairCpuShare] at hb
      exact hb
    split
    · rename_i heq
      rw [heq, back?_insertSc] at hb'
      cases hb'
      exact hzero.le
    · rename_i hne
      rw [back?_insertSc_ne hne] at hb'
      exact ⟨sc', hb', rfl⟩
  refine wp_mono (keepsCounts_linkAgent.wp _) (fun _ m₁ h₁ => ?_) (fun _ m₁ h₁ => hstart.trans h₁)
  cases r.1 with
  | false => exact hstart.trans h₁
  | true =>
    rw [if_pos rfl, wp_bind]
    refine wp_backOf_of (fun sc' _ => ?_) fun _ => hstart.trans h₁
    rw [wp_bind]
    refine wp_setScQuotaSyscall (fun _ => hstart.trans h₁) (fun m₂ h₂ _ _ => ?_)
      (fun m₂ _ h₂ _ _ => ?_)
    all_goals exact hstart.trans (trans_of KeepsCounts h₁ h₂.keepsCounts)

/-- A report counts if it is a mismatch, and only for its container. -/
theorem countsAt_handleCpuUsageReport (ht : req.reqType = cpuReq)
    (hb : m.ec.back? req.containerId = some sc) {n : ℕ}
    (hn : sc.quotaMismatchCounter + (sc.quotaMismatch req.rsrcAmnt).toNat ≤ n) :
    wp (handleCpuUsageReport env req) (fun _ => CountsAt m req.containerId n)
      (fun _ => CountsAt m req.containerId n) m := by
  have hwrite : ∀ sc', sc'.quotaMismatchCounter ≤ n → ∀ sc₀ ∈ m.ec.back? req.containerId,
      ((fun _ => sc') sc₀ : SubContainer).quotaMismatchCounter ≤ n := fun sc' h _ _ => h
  have haccepted : ∀ sc₁ cpu₁,
      (sc.stamped env req).syncQuota req.rsrcAmnt m.ec.cpu = .handled sc₁ cpu₁ →
      CountsAt m req.containerId n (m.accepted env req sc₁ cpu₁) := by
    intro sc₁ cpu₁ hs
    refine CountsAt.modifyBack (t := { m with
      cpuleak := (fixRtLeak m.cpuleak cpu₁).1
      ec := { m.ec with cpu := (fixRtLeak m.cpuleak cpu₁).2 } }) rfl
      (hwrite (sc₁.sampled env req) ?_)
    show sc₁.quotaMismatchCounter ≤ n
    -- an agreement keeps the count, an override starts it anew
    rcases SubContainer.counter_syncQuota_handled hs with ⟨_, rfl⟩ | ⟨_, hzero⟩
    · rw [SubContainer.quotaMismatchCounter_stamped]
      omega
    · omega
  refine wp_handleCpuUsageReport ht hb (fun sc' hs => ?_) (fun sc₁ cpu₁ hs _ => ?_)
    (fun sc₁ cpu₁ rz hs _ => ?_)
  · -- dropped: the only place where the count goes up
    obtain ⟨hm, hcount⟩ := SubContainer.counter_syncQuota_dropped hs
    refine CountsAt.modifyBack rfl (hwrite sc' ?_)
    rw [hcount, SubContainer.quotaMismatchCounter_stamped]
    rw [SubContainer.quotaMismatch_stamped] at hm
    rw [hm] at hn
    exact hn
  · exact (haccepted sc₁ cpu₁ hs).trans (.of_subcontainers rfl)
  · refine wp_mono (keepsCounts_applyResize.wp _) (fun _ m' h' => ?_) (fun _ m' h' => ?_)
    · exact (haccepted sc₁ cpu₁ hs).trans
        (trans_of KeepsCounts h' (.of_subcontainers rfl))
    · exact (haccepted sc₁ cpu₁ hs).trans h'

end Manager

/-! ## The watch -/

/-- The process, and how many of each container's last reports in a row were mismatches. -/
structure Watch where
  manager : Manager
  streak : ContainerId → ℕ

namespace Watch

open Manager

/-- The report differs from the record of its container. -/
def mismatches (m : Manager) (req : Msg) : Bool :=
  (m.ec.back? req.containerId).any fun sc => sc.quotaMismatch req.rsrcAmnt

/-- The streaks after an event. A connection starts a new instance, and with it a new streak. -/
def observe (w : Watch) : Event → ContainerId → ℕ
  | .message _ req hostIp _ =>
    if req.reqType = cpuReq then
      Function.update w.streak req.containerId
        (if mismatches w.manager req then w.streak req.containerId + 1 else 0)
    else if req.reqType = initReq then
      Function.update w.streak ⟨req.cgroupId, .fromNet hostIp⟩ 0
    else w.streak
  | _ => w.streak

/-- The whole process, watched. -/
def system : System Watch Event where
  enabled _ _ := True
  next e w := (gcm.next e w.manager).map fun m' => ⟨m', w.observe e⟩

instance (w : Watch) (e : Event) : Decidable (system.enabled w e) := .isTrue trivial

/-- A process that has just been started. -/
def start (db : UnorderedMap Ip4Addr AgentClient) : Watch := ⟨.new db, fun _ => 0⟩

/-- A report that agrees with the record finds nothing counted. -/
def AgreesUncounted (w : Watch) (e : Event) : Prop :=
  ∀ r ∈ e.report?, ∀ sc ∈ w.manager.ec.back? r.2.containerId,
    sc.quotaMismatch r.2.rsrcAmnt = false → sc.quotaMismatchCounter = 0

instance (w : Watch) (e : Event) : Decidable (w.AgreesUncounted e) :=
  inferInstanceAs (Decidable (∀ r ∈ _, _))

instance (w : Watch) (e : Event) : Decidable ((system.only AgreesUncounted).enabled w e) :=
  inferInstanceAs (Decidable (True ∧ w.AgreesUncounted e))

/-- Nobody has counted more than the streak. -/
def CountsOk (w : Watch) : Prop :=
  ∀ id sc, w.manager.ec.back? id = some sc → sc.quotaMismatchCounter ≤ w.streak id

variable {w w' : Watch} {m' : Manager}

theorem CountsOk.of_keeps (h : w.CountsOk) (hm : KeepsCounts w.manager m') :
    CountsOk ⟨m', w.streak⟩ := by
  intro id sc' hb
  obtain ⟨sc, hsc, heq⟩ := hm id sc' hb
  rw [heq]
  exact h id sc hsc

theorem CountsOk.of_countsAt {id : ContainerId} {n : ℕ} (h : w.CountsOk)
    (hm : CountsAt w.manager id n m') : CountsOk ⟨m', Function.update w.streak id n⟩ := by
  intro id' sc' hb
  have hat := hm id' sc' hb
  show sc'.quotaMismatchCounter ≤ Function.update w.streak id n id'
  split at hat
  · rename_i heq
    rw [heq, Function.update_self]
    exact hat
  · rename_i hne
    obtain ⟨sc, hsc, heq⟩ := hat
    rw [Function.update_of_ne hne, heq]
    exact h id' sc hsc

/-- A report keeps the counts below the streaks. -/
theorem CountsOk.report {env : Env} {req : Msg} (h : w.CountsOk) (ht : req.reqType = cpuReq)
    (hok : ∀ sc ∈ w.manager.ec.back? req.containerId,
      sc.quotaMismatch req.rsrcAmnt = false → sc.quotaMismatchCounter = 0) :
    CountsOk ⟨((handleCpuUsageReport env req).run w.manager).state,
      Function.update w.streak req.containerId
        (if mismatches w.manager req then w.streak req.containerId + 1 else 0)⟩ := by
  refine h.of_countsAt (wp_state_iff.mp ?_)
  unfold mismatches
  cases hb : w.manager.ec.back? req.containerId with
  | none =>
    refine wp_handleCpuUsageReport_of_absent ht hb fun _ id' sc' hb' => ?_
    split
    · rename_i heq
      rw [heq, hb] at hb'
      cases hb'
    · exact ⟨sc', hb', rfl⟩
  | some sc =>
    -- on an agreement the streak falls to zero, and the count, which nobody resets, has to be there
    refine countsAt_handleCpuUsageReport ht hb ?_
    rw [Option.any_some]
    cases hmismatch : sc.quotaMismatch req.rsrcAmnt with
    | true => exact Nat.add_le_add_right (h _ sc hb) 1
    | false => exact (hok sc hb hmismatch).le

/-- **The step lemma.** -/
theorem CountsOk.next {e : Event} (h : w.CountsOk) (hok : w.AgreesUncounted e)
    (hnext : system.next e w = some w') : w'.CountsOk := by
  obtain ⟨m', hm', rfl⟩ := Option.map_eq_some_iff.mp hnext
  have hstate : (e.handle.run w.manager).state = m' := Outcome.state_of_resume hm'
  have hkeeps : ∀ {α : Type} {x : M α}, Keeps KeepsCounts x →
      Keeps KeepsCounts (x >>= fun _ => pure PUnit.unit) :=
    fun hx => keeps_bind hx fun _ => keeps_pure _
  subst hstate
  cases e with
  | appSpec spec => exact h.of_keeps (hkeeps keepsCounts_reportAppSpec w.manager)
  | podSpec pod => exact h.of_keeps (hkeeps keepsCounts_reportPodSpec w.manager)
  | matchDockerId scId dockerId =>
    exact h.of_keeps (wp_state_iff.mp
      (wp_matcher (refl_of KeepsCounts w.manager) keepsCounts_setDockerId))
  | deletePod dockerId => exact h.of_keeps (hkeeps keepsCounts_deletePod w.manager)
  | memLimit env id clifd =>
    exact h.of_keeps (keeps_inThread keepsCounts_mem.determineMemLimitForNewPod w.manager)
  | idleSweep env => exact h.of_keeps (keepsCounts_checkForIdleContainers w.manager)
  | periodicReclaim env =>
    exact h.of_keeps (keeps_inThread keepsCounts_mem.periodicReclaim w.manager)
  | message env req hostIp clifd =>
    have hreply : ((Event.message env req hostIp clifd).handle.run w.manager).state =
        ((handleReq env req hostIp clifd).run w.manager).state := by
      refine state_inThread.trans ?_
      rw [run_bind]
      cases (handleReq env req hostIp clifd).run w.manager <;> rfl
    rw [hreply]
    dsimp only [observe]
    by_cases hcpu : req.reqType = cpuReq
    · rw [if_pos hcpu, handleReq_of_cpu hcpu]
      exact h.report hcpu (hok (env, req) (if_pos hcpu))
    · rw [if_neg hcpu]
      by_cases hinit : req.reqType = initReq
      · rw [if_pos hinit, handleReq_of_init hinit]
        exact h.of_countsAt (wp_state_iff.mp countsAt_handleAddCgroupToEc)
      · -- a memory request, or no request at all
        rw [if_neg hinit]
        refine h.of_keeps ?_
        unfold handleReq
        refine keeps_ite keepsCounts_mem.handleMemReq ?_ w.manager
        rw [if_neg hcpu, if_neg hinit]
        exact keeps_pure _

/-- **Only a stuck mismatch overrides the record**, in every run in which no report agrees with the
record while something has been counted. -/
theorem stuck_mismatch_of_run {db : UnorderedMap Ip4Addr AgentClient} {env : Env} {req : Msg}
    {sc sc₁ : SubContainer} {cpu₁ : Global.Cpu}
    (hrun : (system.only AgreesUncounted).Run (start db) w)
    (hb : w.manager.ec.back? req.containerId = some sc)
    (hs : (sc.stamped env req).syncQuota req.rsrcAmnt w.manager.ec.cpu = .handled sc₁ cpu₁)
    (hover : sc₁.quota ≠ sc.quota) :
    mismatches w.manager req = true ∧ 4 ≤ w.streak req.containerId + 1 := by
  have hstart : (start db).CountsOk := by
    intro id sc hb
    cases hb
  have hcounts : w.CountsOk :=
    System.invariant (S := system.only AgreesUncounted) hstart
      (fun e t t' ht hen hnext => ht.next hen.2 hnext) hrun
  have hle := hcounts _ sc hb
  -- an agreement would have kept the quota, so three mismatches had been counted
  rcases SubContainer.counter_syncQuota_handled hs with ⟨_, rfl⟩ | ⟨hadopt, _⟩
  · exact absurd SubContainer.quota_stamped hover
  · obtain ⟨hmismatch, hseen⟩ := SubContainer.adopts_stamped.mp hadopt
    refine ⟨?_, by omega⟩
    unfold mismatches
    rw [hb]
    exact hmismatch

/-- The container was admitted with 50 million, and these are its reports. -/
def reportsOf (quotas : List UInt64) : List Event :=
  .appSpec ⟨1000, 100⟩ :: deliver 0 (msgOf 1 initReq 50000000 0) ::
    quotas.map fun rx => deliver 0 (msgOf 1 cpuReq rx 0)

/-- Three reports of 60 million, and a fourth. -/
theorem stuck_mismatch_of_four :
    ∃ w, (system.only AgreesUncounted).Run (start oneAgent) w ∧ w.streak ⟨1, node⟩ = 3 ∧
      4 ≤ w.streak ⟨1, node⟩ + 1 := by
  have hreplay : (((system.only AgreesUncounted).replay
      (reportsOf [60000000, 60000000, 60000000]) (start oneAgent)).any fun w =>
        decide (w.streak ⟨1, node⟩ = 3) &&
        (w.manager.ec.back? ⟨1, node⟩).any fun sc =>
          decide (sc.Adopts 60000000 ∧ sc.quota ≠ 60000000)) = true := by
    decide +kernel
  obtain ⟨w, hrun, htest⟩ := System.exists_run_of_replay hreplay
  obtain ⟨hthree, hany⟩ := (Bool.and_eq_true ..).mp htest
  obtain ⟨sc, hb, hsc⟩ := (Option.any_eq_true ..).mp hany
  obtain ⟨hadopt, hne⟩ := of_decide_eq_true hsc
  have hb' : w.manager.ec.back? (msgOf 1 cpuReq 60000000 0).containerId = some sc := hb
  have hadopt' : (sc.stamped creditWorld (msgOf 1 cpuReq 60000000 0)).Adopts 60000000 :=
    SubContainer.adopts_stamped.mpr hadopt
  refine ⟨w, hrun, of_decide_eq_true hthree, ?_⟩
  refine (stuck_mismatch_of_run hrun hb' (SubContainer.syncQuota_of_adopts hadopt') ?_).2
  rw [SubContainer.quota_adoptQuota]
  exact Ne.symm hne

/-- One report of 60 million, one that agrees, and three more of 60 million: the last of them
overrides the record after two in a row. -/
theorem isolated_mismatches_override :
    ¬ ∀ (db : UnorderedMap Ip4Addr AgentClient) (w : Watch) (env : Env) (req : Msg)
      (sc sc₁ : SubContainer) (cpu₁ : Global.Cpu), system.Run (start db) w →
      w.manager.ec.back? req.containerId = some sc →
      (sc.stamped env req).syncQuota req.rsrcAmnt w.manager.ec.cpu = .handled sc₁ cpu₁ →
      sc₁.quota ≠ sc.quota →
      mismatches w.manager req = true ∧ 4 ≤ w.streak req.containerId + 1 := by
  intro hclaim
  have hreplay : ((system.replay (reportsOf [60000000, 50000000, 60000000, 60000000])
      (start oneAgent)).any fun w =>
        decide (w.streak ⟨1, node⟩ = 2) &&
        (w.manager.ec.back? ⟨1, node⟩).any fun sc =>
          decide (sc.Adopts 60000000 ∧ sc.quota ≠ 60000000)) = true := by
    decide +kernel
  obtain ⟨w, hrun, htest⟩ := System.exists_run_of_replay hreplay
  obtain ⟨htwo, hany⟩ := (Bool.and_eq_true ..).mp htest
  obtain ⟨sc, hb, hsc⟩ := (Option.any_eq_true ..).mp hany
  obtain ⟨hadopt, hne⟩ := of_decide_eq_true hsc
  have hadopt' : (sc.stamped creditWorld (msgOf 1 cpuReq 60000000 0)).Adopts 60000000 :=
    SubContainer.adopts_stamped.mpr hadopt
  have hfour := (hclaim oneAgent w creditWorld (msgOf 1 cpuReq 60000000 0) sc _ _ hrun hb
    (SubContainer.syncQuota_of_adopts hadopt')
    (by rw [SubContainer.quota_adoptQuota]; exact Ne.symm hne)).2
  have hstreak : w.streak (msgOf 1 cpuReq 60000000 0).containerId = 2 := of_decide_eq_true htwo
  omega

end Watch

end EcGcm
