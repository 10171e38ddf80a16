import EcGcm.Proof.Frames

/-!
# What most handlers leave alone

Only four events change *who* is registered: a connection, a pod spec, the matching of the two,
and a deletion. Every other handler writes quotas, limits, statistics and counters, and leaves the
queues of identities, the registries and the answers of `sc_ac_map` as they were
(`Manager.Quiet`). Facts about registration are therefore kept by all of them at once.

`Manager.Queued` is the first such fact: under every key there is a non-empty queue of instances
that carry this key as their own id. It holds in every reachable state.
-/

set_option autoImplicit false

namespace EcGcm

open Handler

namespace ElasticContainer

open UnorderedMap

variable {ec : ElasticContainer} {id : ContainerId} {sc : SubContainer}
  {f : SubContainer → SubContainer}

/-- The queue of an id, identities only. -/
def shape (ec : ElasticContainer) (id : ContainerId) :
    Option (List (ContainerId × String × Int × Bool)) :=
  (ec.subcontainers.lookup id).map (List.map SubContainer.identity)

theorem shape_congr {ec' : ElasticContainer} (h : ec'.subcontainers = ec.subcontainers) :
    ec'.shape = ec.shape := by
  unfold shape
  rw [h]

theorem agent?_congr {ec' : ElasticContainer} (h : ec'.scAcMap = ec.scAcMap) (id : ContainerId) :
    ec'.agent? id = ec.agent? id := by
  unfold agent?
  rw [h]

theorem subcontainers_modifyBack_congr {ec' : ElasticContainer}
    (h : ec'.subcontainers = ec.subcontainers) :
    (ec'.modifyBack id f).subcontainers = (ec.modifyBack id f).subcontainers := by
  unfold modifyBack
  rw [h]
  split
  · rfl
  · exact h

/-- A write to the newest instance that keeps its identity. -/
theorem shape_modifyBack (hf : ∀ sc ∈ ec.back? id, (f sc).identity = sc.identity) :
    (ec.modifyBack id f).shape = ec.shape := by
  cases hq : ec.subcontainers.lookup id with
  | none =>
    unfold modifyBack
    rw [hq]
  | some q =>
    funext id'
    unfold modifyBack shape
    rw [hq]
    dsimp only
    rw [lookup_insert']
    split
    · rename_i heq
      rw [heq, hq]
      rcases List.eq_nil_or_concat' q with rfl | ⟨l, sc, rfl⟩
      · rfl
      · have hid := hf sc (back?_of_lookup hq)
        simp only [List.modifyLast_concat, Option.map_some, List.map_append, List.map_cons,
          List.map_nil, hid]
    · rfl

/-! ## Queues are not empty -/

/-- Under every key, a non-empty queue of instances with that id. -/
def Queued (ec : ElasticContainer) : Prop :=
  ∀ id q, ec.subcontainers.lookup id = some q → q ≠ [] ∧ ∀ sc ∈ q, sc.cId = id

theorem Queued.back (h : ec.Queued) {q : List SubContainer}
    (hq : ec.subcontainers.lookup id = some q) : ∃ sc, ec.back? id = some sc := by
  refine ⟨q.getLast (h id q hq).1, ?_⟩
  unfold back?
  rw [hq]
  exact List.getLast?_eq_some_getLast _

theorem Queued.cId_of_back (h : ec.Queued) (hb : ec.back? id = some sc) : sc.cId = id := by
  obtain ⟨l, hl⟩ := lookup_of_back? hb
  exact (h id _ hl).2 sc (by simp)

theorem Queued.of_shape {ec' : ElasticContainer} (h : ec.Queued) (hs : ec'.shape = ec.shape) :
    ec'.Queued := by
  intro id q hq
  have hid := congrFun hs id
  unfold shape at hid
  rw [hq, Option.map_some] at hid
  obtain ⟨q₀, hq₀, hmap⟩ := Option.map_eq_some_iff.mp hid.symm
  obtain ⟨hne, hcId⟩ := h id q₀ hq₀
  constructor
  · intro hnil
    rw [hnil, List.map_nil, List.map_eq_nil_iff] at hmap
    exact hne hmap
  · intro sc hsc
    have hmem : sc.identity ∈ q₀.map SubContainer.identity := by
      rw [hmap]
      exact List.mem_map_of_mem hsc
    obtain ⟨sc₀, hsc₀, heq⟩ := List.mem_map.mp hmem
    have hfst : sc₀.cId = sc.cId := congrArg Prod.fst heq
    rw [← hfst]
    exact hcId sc₀ hsc₀

theorem Queued.modifyBack (h : ec.Queued) (hf : ∀ sc, (f sc).cId = sc.cId) :
    (ec.modifyBack id f).Queued := by
  unfold ElasticContainer.modifyBack
  split
  · rename_i q hq
    intro id' q' hq'
    rw [lookup_insert'] at hq'
    split at hq'
    · rename_i heq
      obtain ⟨hne, hcId⟩ := h id q hq
      cases hq'
      subst heq
      obtain ⟨l, a, rfl⟩ := (List.eq_nil_or_concat' q).resolve_left hne
      rw [List.modifyLast_concat]
      refine ⟨by simp, fun sc hsc => ?_⟩
      rcases List.mem_append.mp hsc with hl | ha
      · exact hcId sc (by simp [hl])
      · rw [List.mem_singleton.mp ha, hf a]
        exact hcId a (by simp)
    · exact h id' q' hq'
  · exact h

theorem Queued.insertSc (h : ec.Queued) : (ec.insertSc sc).Queued := by
  unfold ElasticContainer.insertSc
  split
  · rename_i q hq
    intro id' q' hq'
    rw [lookup_insert'] at hq'
    split at hq'
    · rename_i heq
      cases hq'
      subst heq
      refine ⟨by simp, fun sc' hsc => ?_⟩
      rcases List.mem_append.mp hsc with hl | ha
      · exact (h _ q hq).2 sc' hl
      · rw [List.mem_singleton.mp ha]
    · exact h id' q' hq'
  · intro id' q' hq'
    rw [lookup_insert'] at hq'
    split at hq'
    · rename_i heq
      cases hq'
      subst heq
      exact ⟨by simp, fun sc' hsc => by rw [List.mem_singleton.mp hsc]⟩
    · exact h id' q' hq'

theorem Queued.delete (h : ec.Queued) : (ec.ecDeleteFromSubcontainersMap id).2.Queued := by
  unfold ecDeleteFromSubcontainersMap
  split
  · rename_i q hq
    split
    · rename_i hlen
      intro id' q' hq'
      rw [lookup_insert'] at hq'
      split at hq'
      · rename_i heq
        cases hq'
        subst heq
        refine ⟨fun hnil => ?_, fun sc hsc => (h _ q hq).2 sc (List.mem_of_mem_tail hsc)⟩
        have := congrArg List.length hnil
        rw [List.length_tail, List.length_nil] at this
        omega
      · exact h id' q' hq'
    · intro id' q' hq'
      rw [lookup_erase'] at hq'
      split at hq'
      · cases hq'
      · exact h id' q' hq'
  · exact h

/-- The elastic container once a new instance has been inserted and, if its node has an agent,
linked to it. -/
def register (ec : ElasticContainer) (sc : SubContainer)
    (agent : Option AgentClient) : ElasticContainer :=
  match agent with
  | some agent =>
    ((ec.insertSc sc).addToScAcMap sc.cId agent).modifyBack sc.cId fun sc => sc.setScInserted true
  | none => ec.insertSc sc

end ElasticContainer

namespace Manager

open ElasticContainer

/-- `m'` has the same containers and registries as `m`, and the same lock on the deployed pods. The
agent map may have grown by null entries. -/
structure Quiet (m m' : Manager) : Prop where
  shape : m'.ec.shape = m.ec.shape
  agent : ∀ id, m'.ec.agent? id = m.ec.agent? id
  agentsDb : m'.agentsDb = m.agentsDb
  deployedPods : m'.deployedPods = m.deployedPods
  dockerToSubContainer : m'.dockerToSubContainer = m.dockerToSubContainer
  depPodLock : m'.depPodLock = m.depPodLock

instance : IsPreorder Manager Quiet where
  refl _ := ⟨rfl, fun _ => rfl, rfl, rfl, rfl, rfl⟩
  trans _ _ _ h h' :=
    ⟨h'.shape.trans h.shape, fun id => (h'.agent id).trans (h.agent id),
      h'.agentsDb.trans h.agentsDb, h'.deployedPods.trans h.deployedPods,
      h'.dockerToSubContainer.trans h.dockerToSubContainer, h'.depPodLock.trans h.depPodLock⟩

variable {m m' : Manager} {env : Env} {id : ContainerId} {sc : SubContainer}

theorem AgentFrame.quiet (h : AgentFrame m m') : Quiet m m' := by
  obtain ⟨_, _, hagent, rfl⟩ := h
  exact ⟨rfl, hagent, rfl, rfl, rfl, rfl⟩

/-! ## The handlers -/

theorem Quiet.modifyBack {f : SubContainer → SubContainer}
    (hf : ∀ sc ∈ m.ec.back? id, (f sc).identity = sc.identity) :
    Quiet m { m with ec := m.ec.modifyBack id f } :=
  ⟨shape_modifyBack hf, fun id' => agent?_congr scAcMap_modifyBack id', rfl, rfl, rfl, rfl⟩

theorem quiet_mem : AllowsMem Quiet where
  agent := AgentFrame.quiet
  limit := .modifyBack fun _ _ => rfl
  mem _ _ := ⟨rfl, fun _ => rfl, rfl, rfl, rfl, rfl⟩
  lock := ⟨rfl, fun _ => rfl, rfl, rfl, rfl, rfl⟩

theorem quiet_cpu : AllowsCpu Quiet where
  agent := AgentFrame.quiet
  back := .modifyBack
  cpu _ _ := ⟨rfl, fun _ => rfl, rfl, rfl, rfl, rfl⟩
  counters := ⟨rfl, fun _ => rfl, rfl, rfl, rfl, rfl⟩

theorem quiet_reportAppSpec {spec : ExportAppSpec} : Keeps Quiet (reportAppSpec spec) := by
  intro m
  rw [run_reportAppSpec]
  exact ⟨rfl, fun _ => rfl, rfl, rfl, rfl, rfl⟩

/-- What a push is decided by, once a report has been accepted, is what it was before. -/
theorem reach_of_handled {req : Msg} {sc₁ : SubContainer} {cpu₁ : Global.Cpu}
    (hs : (sc.stamped env req).syncQuota req.rsrcAmnt m.ec.cpu = .handled sc₁ cpu₁) :
    (sc₁.sampled env req).inserted = sc.inserted ∧ (sc₁.sampled env req).cId = sc.cId ∧
      ∀ id, (m.accepted env req sc₁ cpu₁).ec.agent? id = m.ec.agent? id := by
  have hidentity := SubContainer.identity_syncQuota_handled hs
  rw [SubContainer.identity_stamped] at hidentity
  exact ⟨congrArg (fun t => t.2.2.2) hidentity, congrArg (fun t => t.1) hidentity,
    fun id => agent?_congr scAcMap_modifyBack id⟩

/-! ## A connection

The pushes of an admission are quiet, so up to `Quiet` an admission is the registration. -/

/-- The manager after an admission, before the quota push. -/
def admitted (m : Manager) (cpu : Global.Cpu) (sc : SubContainer) : Manager :=
  let ec := ({ m.ec with cpu := cpu } : ElasticContainer)
  { m with ec := ec.register sc (m.agentsDb.lookup sc.cId.serverIp) }

theorem wp_determineQuotaForNewPod_of {reqQuota : UInt64} {Q : Bool × UInt64 → Manager → Prop}
    {E : Halt → Manager → Prop}
    (hQ : ∀ r cpu, Q r { m with ec := { m.ec with cpu := cpu } }) :
    wp (determineQuotaForNewPod reqQuota) Q E m := by
  unfold determineQuotaForNewPod
  rw [wp_bind, wp_get, wp_ite]
  split
  · exact hQ _ _
  · rw [wp_ite]
    split
    · exact hQ _ _
    · exact hQ _ _

/-- Linking after the share has been recomputed, or the other way round, is the same to
everything but the share. -/
theorem quiet_linkAgent_register {ec : ElasticContainer} {sc : SubContainer}
    {E : Halt → Manager → Prop} :
    wp (linkAgent sc.cId)
      (fun _ m' => Quiet { m with ec := ec.register sc (m.agentsDb.lookup sc.cId.serverIp) } m') E
      { m with ec := (ec.insertSc sc).updateFairCpuShare } := by
  unfold linkAgent
  rw [wp_bind, wp_get]
  dsimp only
  cases m.agentsDb.lookup sc.cId.serverIp with
  | none =>
    refine ⟨?_, fun id => ?_, rfl, rfl, rfl, rfl⟩
    · exact shape_congr subcontainers_updateFairCpuShare
    · exact agent?_congr scAcMap_updateFairCpuShare id
  | some agent =>
    have hsc : ((ec.insertSc sc).updateFairCpuShare.addToScAcMap sc.cId agent).subcontainers =
        ((ec.insertSc sc).addToScAcMap sc.cId agent).subcontainers :=
      subcontainers_updateFairCpuShare
    have hac : ((ec.insertSc sc).updateFairCpuShare.addToScAcMap sc.cId agent).scAcMap =
        ((ec.insertSc sc).addToScAcMap sc.cId agent).scAcMap := by
      unfold addToScAcMap
      rw [scAcMap_updateFairCpuShare]
    refine ⟨shape_congr (subcontainers_modifyBack_congr hsc), fun id => agent?_congr ?_ id, rfl,
      rfl, rfl, rfl⟩
    simp only [register, scAcMap_modifyBack]
    exact hac

/-- Admission, up to quotas: the new instance is registered, and nothing else happens. -/
theorem wp_handleAddCgroupToEc {req : Msg} {ip : UInt32} {fd : Int} {R : Manager → Prop}
    (hR : ∀ cpu quota m',
      Quiet (m.admitted cpu (.new req.cgroupId ip fd quota req.request env.now)) m' → R m') :
    wp (handleAddCgroupToEc env req ip fd) (fun _ => R) (fun _ => R) m := by
  unfold handleAddCgroupToEc
  rw [wp_bind]
  refine wp_determineQuotaForNewPod_of fun r cpu => ?_
  simp only [wp_bind, modifyEc, wp_modify]
  refine wp_mono_ret quiet_linkAgent_register fun _ m₁ h₁ => ?_
  cases r.1 with
  | false => exact hR cpu r.2 m₁ h₁
  | true =>
    rw [if_pos rfl, wp_bind]
    refine wp_mono ((keeps_backOf (R := Quiet)).wp m₁) (fun sc m₂ h₂ => ?_) (fun _ m₂ h₂ => ?_)
    · rw [wp_bind]
      refine wp_mono ((keeps_setScQuotaSyscall AgentFrame.quiet).wp m₂) (fun _ m₃ h₃ => ?_)
        (fun _ m₃ h₃ => ?_)
      all_goals exact hR cpu r.2 m₃ (trans_of Quiet (trans_of Quiet h₁ h₂) h₃)
    · exact hR cpu r.2 m₂ (trans_of Quiet h₁ h₂)

/-! ## Queues, over whole runs -/

/-- The newest instance is still the same one. -/
theorem Quiet.back (h : Quiet m m') (hb : m.ec.back? id = some sc) :
    ∃ sc', m'.ec.back? id = some sc' ∧ sc'.identity = sc.identity := by
  obtain ⟨l, hl⟩ := lookup_of_back? hb
  have hid := congrFun h.shape id
  unfold ElasticContainer.shape at hid
  rw [hl, Option.map_some, List.map_append] at hid
  obtain ⟨q, hq, hmap⟩ := Option.map_eq_some_iff.mp hid
  obtain ⟨l', a, rfl, _, ha⟩ := List.map_eq_append_iff.mp hmap
  obtain ⟨sc', rest, rfl, hsc, hrest⟩ := List.map_eq_cons_iff.mp ha
  obtain rfl := List.map_eq_nil_iff.mp hrest
  exact ⟨sc', back?_of_lookup hq, hsc⟩

theorem Quiet.queued (h : Quiet m m') (hq : m.ec.Queued) : m'.ec.Queued := hq.of_shape h.shape

theorem queued_admitted {cpu : Global.Cpu} (h : m.ec.Queued) : (m.admitted cpu sc).ec.Queued := by
  have hins : (({ m.ec with cpu := cpu } : ElasticContainer).insertSc sc).Queued := by
    have h' : ({ m.ec with cpu := cpu } : ElasticContainer).Queued := h
    exact h'.insertSc
  show (ElasticContainer.register _ sc (m.agentsDb.lookup sc.cId.serverIp)).Queued
  unfold register
  split
  · rename_i agent _
    have hlink : ((({ m.ec with cpu := cpu } : ElasticContainer).insertSc sc).addToScAcMap
        sc.cId agent).Queued := hins
    exact hlink.modifyBack fun _ => rfl
  · exact hins

theorem queued_matcher {scId : ContainerId} {dockerId : String} (h : m.ec.Queued) :
    wp (scIdToDockerIdMatcherThread scId dockerId) (fun _ m' => m'.ec.Queued)
      (fun _ m' => m'.ec.Queued) m :=
  wp_matcher h (h.modifyBack fun _ => rfl)

theorem queued_podSpec {pod : ExportPodSpec} (h : m.ec.Queued) :
    wp (reportPodSpec pod) (fun _ m' => m'.ec.Queued) (fun _ m' => m'.ec.Queued) m := by
  refine wp_reportPodSpec h h (fun _ => h) fun scId m' hm => ?_
  have h' : m'.ec.Queued := by
    rw [hm]
    exact h
  exact h'.modifyBack fun _ => rfl

theorem queued_deletePod {dockerId : String} (h : m.ec.Queued) :
    wp (Manager.deletePod dockerId) (fun _ m' => m'.ec.Queued) (fun _ m' => m'.ec.Queued) m := by
  have hhalf : ∀ id, (m.halfDeleted id).ec.Queued := by
    intro id
    have h₁ : ({ m.ec with scAcMap := m.ec.scAcMap.erase id } : ElasticContainer).Queued := h
    exact h₁.delete
  refine wp_deletePod h (fun _ => h) (fun id _ _ _ _ _ _ => hhalf id) fun id front rest _ _ _ => ?_
  exact (hhalf id).of_shape (shape_congr subcontainers_updateFairCpuShare)

theorem queued_next {e : Event} (h : m.ec.Queued) (hnext : gcm.next e m = some m') :
    m'.ec.Queued := by
  have hquiet : ∀ {x : M PUnit}, Keeps Quiet x →
      wp x (fun _ m' => m'.ec.Queued) (fun _ m' => m'.ec.Queued) m := by
    intro x hx
    exact wp_mono (hx.wp m) (fun _ _ hm => hm.queued h) (fun _ _ hm => hm.queued h)
  refine resume_of_wp (I := fun m => m.ec.Queued) ?_ hnext
  cases e with
  | appSpec spec => exact hquiet (keeps_bind quiet_reportAppSpec fun _ => keeps_pure _)
  | podSpec pod => exact (wp_bind ..).mpr (queued_podSpec h)
  | matchDockerId scId dockerId => exact queued_matcher h
  | deletePod dockerId => exact (wp_bind ..).mpr (queued_deletePod h)
  | memLimit env id clifd => exact hquiet (keeps_inThread quiet_mem.determineMemLimitForNewPod)
  | idleSweep env => exact hquiet quiet_cpu.checkForIdleContainers
  | periodicReclaim env => exact hquiet (keeps_inThread quiet_mem.periodicReclaim)
  | message env req hostIp clifd =>
    refine wp_inThread.mpr ((wp_bind ..).mpr ?_)
    show wp (handleReq env req hostIp clifd) (fun _ m' => m'.ec.Queued) _ m
    unfold handleReq
    rw [wp_ite]
    split
    · exact wp_mono (quiet_mem.handleMemReq.wp m) (fun _ _ hm => hm.queued h)
        (fun _ _ hm => hm.queued h)
    · rw [wp_ite]
      split
      · exact wp_mono (quiet_cpu.handleCpuUsageReport.wp m) (fun _ _ hm => hm.queued h)
          (fun _ _ hm => hm.queued h)
      · rw [wp_ite]
        split
        · exact wp_handleAddCgroupToEc fun cpu quota m' hm => hm.queued (queued_admitted h)
        · exact h

/-- **In every reachable state, every key has a queue of its own instances.** -/
theorem queued_of_run {db : UnorderedMap Ip4Addr AgentClient} (hrun : gcm.Run (.new db) m) :
    m.ec.Queued :=
  System.invariant (I := fun m => m.ec.Queued) (fun _ _ hq => by cases hq)
    (fun _ _ _ h _ hnext => queued_next h hnext) hrun

end Manager

end EcGcm
