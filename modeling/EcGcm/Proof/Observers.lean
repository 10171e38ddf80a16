import EcGcm.Lib.Shadow
import EcGcm.Proof.Registrations

/-!
# Observers

An observer of the controller sees who is registered, and of every instance and of the pools only a
part (`Observer`). Two states are the `Same` to it when that is all they have in common. The order
of the map of containers is nothing it sees.

Registration and deletion concern every observer. What they do to what it sees is decided by what
it sees, so from two states that are the same they lead to two that are the same: each call shadows
itself (`Handler.Shadows`). That is proved here for an arbitrary observer; what is left to each of
them is its own part of the pools.
-/

set_option autoImplicit false

namespace EcGcm

open Handler Manager UnorderedMap

/-- The pools and the counters of a manager. -/
structure Totals where
  cpu : Global.Cpu
  mem : Global.Mem
  fairCpuShare : UInt64
  cpuleak : Int64
  syscallSequenceNumber : Int64

def Manager.totals (m : Manager) : Totals :=
  ⟨m.ec.cpu, m.ec.mem, m.ec.fairCpuShare, m.cpuleak, m.syscallSequenceNumber⟩

/-- What an observer sees of an instance, with the rest blurred, and of the pools. It sees who an
instance is. -/
structure Observer (β : Type) where
  blur : SubContainer → SubContainer
  look : Totals → β
  identity_blur : ∀ sc, (blur sc).identity = sc.identity
  blur_setDockerId : ∀ sc dockerId, blur (sc.setDockerId dockerId) = (blur sc).setDockerId dockerId
  blur_setScInserted : ∀ sc inserted,
    blur (sc.setScInserted inserted) = (blur sc).setScInserted inserted

namespace Observer

variable {β : Type} (O : Observer β)

/-- The queue of an id, as it is seen. -/
def queue (ec : ElasticContainer) (id : ContainerId) : Option (List SubContainer) :=
  (ec.subcontainers.lookup id).map (List.map O.blur)

/-- The two states look the same. -/
structure Same (m t : Manager) : Prop where
  queue : ∀ id, O.queue t.ec id = O.queue m.ec id
  link : ∀ id, t.ec.scAcMap.lookup id = m.ec.scAcMap.lookup id
  agentsDb : t.agentsDb = m.agentsDb
  deployedPods : t.deployedPods = m.deployedPods
  dockerToSubContainer : t.dockerToSubContainer = m.dockerToSubContainer
  depPodLock : t.depPodLock = m.depPodLock
  memlock : t.memlock = m.memlock
  look : O.look t.totals = O.look m.totals

/-- The two instances look the same. -/
def SameSc (sc sc' : SubContainer) : Prop := O.blur sc' = O.blur sc

variable {O} {m m' t : Manager} {id : ContainerId} {sc sc' : SubContainer}

theorem Same.refl (m : Manager) : O.Same m m :=
  ⟨fun _ => rfl, fun _ => rfl, rfl, rfl, rfl, rfl, rfl, rfl⟩

theorem Same.symm (h : O.Same m t) : O.Same t m :=
  ⟨fun id => (h.queue id).symm, fun id => (h.link id).symm, h.agentsDb.symm, h.deployedPods.symm,
    h.dockerToSubContainer.symm, h.depPodLock.symm, h.memlock.symm, h.look.symm⟩

theorem Same.trans (h : O.Same m m') (h' : O.Same m' t) : O.Same m t :=
  ⟨fun id => (h'.queue id).trans (h.queue id), fun id => (h'.link id).trans (h.link id),
    h'.agentsDb.trans h.agentsDb, h'.deployedPods.trans h.deployedPods,
    h'.dockerToSubContainer.trans h.dockerToSubContainer, h'.depPodLock.trans h.depPodLock,
    h'.memlock.trans h.memlock, h'.look.trans h.look⟩

theorem SameSc.identity (h : O.SameSc sc sc') : sc'.identity = sc.identity := by
  rw [← O.identity_blur, ← O.identity_blur sc, h]

theorem SameSc.cId (h : O.SameSc sc sc') : sc'.cId = sc.cId := congrArg (fun i => i.1) h.identity

theorem SameSc.dockerId (h : O.SameSc sc sc') : sc'.dockerId = sc.dockerId :=
  congrArg (fun i => i.2.1) h.identity

theorem SameSc.fd (h : O.SameSc sc sc') : sc'.fd = sc.fd := congrArg (fun i => i.2.2.1) h.identity

theorem SameSc.inserted (h : O.SameSc sc sc') : sc'.inserted = sc.inserted :=
  congrArg (fun i => i.2.2.2) h.identity

/-! ## Queues -/

/-- What looks the same is there on both sides, or on neither. -/
theorem cases_of_map_eq {α : Type} {f : α → β} {o o' : Option α} (h : o'.map f = o.map f) :
    (o = none ∧ o' = none) ∨ ∃ a a', o = some a ∧ o' = some a' ∧ f a' = f a := by
  cases o with
  | none => exact .inl ⟨rfl, Option.map_eq_none_iff.mp h⟩
  | some a =>
    obtain ⟨a', ha', heq⟩ := Option.map_eq_some_iff.mp h
    exact .inr ⟨a, a', rfl, ha', heq⟩

theorem Same.lookup (h : O.Same m t) (id : ContainerId) :
    (m.ec.subcontainers.lookup id = none ∧ t.ec.subcontainers.lookup id = none) ∨
      ∃ q q', m.ec.subcontainers.lookup id = some q ∧ t.ec.subcontainers.lookup id = some q' ∧
        q'.map O.blur = q.map O.blur := cases_of_map_eq (h.queue id)

theorem getLast_of_map_eq {q q' : List SubContainer} (h : q'.map O.blur = q.map O.blur) :
    (q.getLast? = none ∧ q'.getLast? = none) ∨
      ∃ sc sc', q.getLast? = some sc ∧ q'.getLast? = some sc' ∧ O.SameSc sc sc' := by
  refine cases_of_map_eq (f := O.blur) ?_
  rw [← List.getLast?_map, ← List.getLast?_map, h]

theorem Same.back (h : O.Same m t) (id : ContainerId) :
    (m.ec.back? id = none ∧ t.ec.back? id = none) ∨
      ∃ sc sc', m.ec.back? id = some sc ∧ t.ec.back? id = some sc' ∧ O.SameSc sc sc' := by
  unfold ElasticContainer.back?
  rcases h.lookup id with ⟨hm, ht⟩ | ⟨q, q', hm, ht, hqq⟩
  · rw [hm, ht]
    exact .inl ⟨rfl, rfl⟩
  · rw [hm, ht]
    exact getLast_of_map_eq hqq

/-- The same ids are registered, in some order. -/
theorem Same.keys (h : O.Same m t) :
    t.ec.subcontainers.keys.Perm m.ec.subcontainers.keys := by
  refine (List.perm_ext_iff_of_nodup (AList.keys_nodup _) (AList.keys_nodup _)).mpr fun id => ?_
  rw [UnorderedMap.mem_keys_iff_lookup, UnorderedMap.mem_keys_iff_lookup]
  rcases h.lookup id with ⟨hm, ht⟩ | ⟨q, q', hm, ht, -⟩
  · rw [hm, ht]
  · rw [hm, ht]
    exact ⟨fun _ => ⟨q, rfl⟩, fun _ => ⟨q', rfl⟩⟩

theorem map_modifyLast {f g : SubContainer → SubContainer} {q q' : List SubContainer}
    (h : q'.map O.blur = q.map O.blur)
    (hfg : ∀ sc sc', sc ∈ q.getLast? → sc' ∈ q'.getLast? → O.SameSc sc sc' →
      O.SameSc (f sc) (g sc')) :
    (q'.modifyLast g).map O.blur = (q.modifyLast f).map O.blur := by
  rcases List.eq_nil_or_concat' q with rfl | ⟨l, sc, rfl⟩
  · rw [List.map_nil, List.map_eq_nil_iff] at h
    rw [h]
    rfl
  · rw [List.map_append, List.map_singleton] at h
    obtain ⟨l', r, rfl, hl, hr⟩ := List.map_eq_append_iff.mp h
    obtain ⟨sc', rfl, hsc⟩ := List.map_eq_singleton_iff.mp hr
    have hsame := hfg sc sc' (List.getLast?_concat) (List.getLast?_concat) hsc
    rw [List.modifyLast_concat, List.modifyLast_concat, List.map_append, List.map_append, hl,
      List.map_singleton, List.map_singleton, hsame]

/-- Writes to the newest instance that are the same to the observer. -/
theorem Same.modifyBack {f g : SubContainer → SubContainer} (h : O.Same m t)
    (hfg : ∀ sc sc', m.ec.back? id = some sc → t.ec.back? id = some sc' → O.SameSc sc sc' →
      O.SameSc (f sc) (g sc')) :
    O.Same { m with ec := m.ec.modifyBack id f } { t with ec := t.ec.modifyBack id g } where
  queue id' := by
    unfold Observer.queue
    dsimp only
    rw [ElasticContainer.lookup_modifyBack, ElasticContainer.lookup_modifyBack]
    split
    · rcases h.lookup id with ⟨hm, ht⟩ | ⟨q, q', hm, ht, hqq⟩
      · rw [hm, ht]
        rfl
      · have hback : ∀ sc sc', sc ∈ q.getLast? → sc' ∈ q'.getLast? → O.SameSc sc sc' →
            O.SameSc (f sc) (g sc') := by
          intro sc sc' hsc hsc'
          refine hfg sc sc' ?_ ?_
          · unfold ElasticContainer.back?
            rw [hm]
            exact hsc
          · unfold ElasticContainer.back?
            rw [ht]
            exact hsc'
        rw [hm, ht, Option.map_some, Option.map_some, Option.map_some, Option.map_some,
          map_modifyLast hqq hback]
    · exact h.queue id'
  link id' := by
    dsimp only
    rw [ElasticContainer.scAcMap_modifyBack, ElasticContainer.scAcMap_modifyBack]
    exact h.link id'
  agentsDb := h.agentsDb
  deployedPods := h.deployedPods
  dockerToSubContainer := h.dockerToSubContainer
  depPodLock := h.depPodLock
  memlock := h.memlock
  look := by
    unfold Manager.totals
    dsimp only
    simp only [ElasticContainer.cpu_modifyBack, ElasticContainer.mem_modifyBack,
      ElasticContainer.fairCpuShare_modifyBack]
    exact h.look

theorem Same.insertSc (h : O.Same m t) (hsc : O.SameSc sc sc') :
    O.Same { m with ec := m.ec.insertSc sc } { t with ec := t.ec.insertSc sc' } where
  queue id := by
    unfold Observer.queue
    dsimp only
    rw [ElasticContainer.lookup_insertSc, ElasticContainer.lookup_insertSc, hsc.cId]
    split
    · rcases h.lookup sc.cId with ⟨hm, ht⟩ | ⟨q, q', hm, ht, hqq⟩
      · rw [hm, ht]
        show some [O.blur sc'] = some [O.blur sc]
        rw [hsc]
      · rw [hm, ht]
        show some ((q' ++ [sc']).map O.blur) = some ((q ++ [sc]).map O.blur)
        rw [List.map_append, List.map_append, hqq, List.map_singleton, List.map_singleton, hsc]
    · exact h.queue id
  link id := by
    dsimp only
    rw [ElasticContainer.scAcMap_insertSc, ElasticContainer.scAcMap_insertSc]
    exact h.link id
  agentsDb := h.agentsDb
  deployedPods := h.deployedPods
  dockerToSubContainer := h.dockerToSubContainer
  depPodLock := h.depPodLock
  memlock := h.memlock
  look := by
    have htotals : ∀ (u : Manager) (c : SubContainer),
        ({ u with ec := u.ec.insertSc c } : Manager).totals = u.totals := by
      intro u c
      unfold Manager.totals ElasticContainer.insertSc
      dsimp only
      split <;> rfl
    rw [htotals, htotals]
    exact h.look

/-- A lookup that may leave an entry behind. -/
theorem Same.getCorresAgentClient (h : O.Same m t) (id : ContainerId) :
    (t.ec.getCorresAgentClient id).1 = (m.ec.getCorresAgentClient id).1 ∧
      O.Same { m with ec := (m.ec.getCorresAgentClient id).2 }
        { t with ec := (t.ec.getCorresAgentClient id).2 } := by
  have hlink := h.link id
  unfold ElasticContainer.getCorresAgentClient UnorderedMap.subscript
  dsimp only
  rw [hlink]
  cases hid : m.ec.scAcMap.lookup id with
  | some a =>
    exact ⟨rfl, h.queue, h.link, h.agentsDb, h.deployedPods, h.dockerToSubContainer, h.depPodLock,
      h.memlock, h.look⟩
  | none =>
    refine ⟨rfl, h.queue, fun id' => ?_, h.agentsDb, h.deployedPods, h.dockerToSubContainer,
      h.depPodLock, h.memlock, h.look⟩
    dsimp only
    rw [lookup_insert', lookup_insert', h.link id']

theorem Same.addToScAcMap (h : O.Same m t) (id : ContainerId) (agent : AgentClient) :
    O.Same { m with ec := m.ec.addToScAcMap id agent }
      { t with ec := t.ec.addToScAcMap id agent } := by
  refine ⟨h.queue, fun id' => ?_, h.agentsDb, h.deployedPods, h.dockerToSubContainer, h.depPodLock,
    h.memlock, h.look⟩
  have hlink := h.link id
  unfold ElasticContainer.addToScAcMap UnorderedMap.emplace
  dsimp only
  rw [hlink]
  cases m.ec.scAcMap.lookup id with
  | some a => exact h.link id'
  | none =>
    dsimp only
    rw [lookup_insert', lookup_insert', h.link id']

/-! ## The calls of the handlers -/

section Calls

variable (O)

theorem shadows_ecGetScForUpdate (id : ContainerId) :
    Shadows O.Same O.SameSc (ecGetScForUpdate id) (ecGetScForUpdate id) := by
  unfold ecGetScForUpdate
  refine shadows_bind shadows_get fun m t h => ?_
  rcases h.lookup id with ⟨hm, ht⟩ | ⟨q, q', hm, ht, hqq⟩
  · rw [hm, ht]
    exact shadows_halt _
  · rw [hm, ht]
    dsimp only
    rcases getLast_of_map_eq hqq with ⟨hq, hq'⟩ | ⟨sc, sc', hq, hq', hsc⟩
    · rw [hq, hq']
      exact shadows_halt _
    · rw [hq, hq']
      exact shadows_pure hsc

theorem shadows_backOf (id : ContainerId) :
    Shadows O.Same O.SameSc (backOf id) (backOf id) := by
  unfold backOf
  refine shadows_bind shadows_get fun m t h => ?_
  rcases h.back id with ⟨hm, ht⟩ | ⟨sc, sc', hm, ht, hsc⟩
  · rw [hm, ht]
    exact shadows_halt _
  · rw [hm, ht]
    exact shadows_pure hsc

theorem shadows_getCorresAgentClient (id : ContainerId) :
    Shadows O.Same Eq (getCorresAgentClient id) (getCorresAgentClient id) := by
  intro m t h
  obtain ⟨hclient, hsame⟩ := h.getCorresAgentClient id
  exact .ret hclient.symm hsame

theorem shadows_modifyBack {f g : SubContainer → SubContainer}
    (hfg : ∀ sc sc', O.SameSc sc sc' → O.SameSc (f sc) (g sc')) (id : ContainerId) :
    Shadows O.Same Eq (Manager.modifyBack id f) (Manager.modifyBack id g) :=
  shadows_modify fun _ _ h => h.modifyBack fun sc sc' _ _ hsc => hfg sc sc' hsc

theorem shadows_linkAgent (id : ContainerId) : Shadows O.Same Eq (linkAgent id) (linkAgent id) := by
  unfold linkAgent
  refine shadows_bind shadows_get fun m t h => ?_
  rw [h.agentsDb]
  cases m.agentsDb.lookup id.serverIp with
  | none => exact shadows_pure rfl
  | some agent =>
    refine shadows_bind (shadows_modify fun _ _ h => h.addToScAcMap id agent) fun _ _ _ => ?_
    refine O.shadows_modifyBack (fun sc sc' hsc => ?_) id
    unfold SameSc
    rw [O.blur_setScInserted, O.blur_setScInserted, hsc]

end Calls

/-! ## Registration -/

section Registration

variable (O)

theorem shadows_matcher (scId : ContainerId) (dockerId : String) :
    Shadows O.Same Eq (scIdToDockerIdMatcherThread scId dockerId)
      (scIdToDockerIdMatcherThread scId dockerId) := by
  unfold scIdToDockerIdMatcherThread
  refine shadows_bind shadows_get fun m t h => ?_
  rw [h.link scId]
  cases m.ec.scAcMap.lookup scId with
  | none => exact shadows_halt _
  | some _ =>
    refine shadows_bind (O.shadows_ecGetScForUpdate scId) fun _ _ _ => ?_
    refine O.shadows_modifyBack (fun sc sc' hsc => ?_) scId
    unfold SameSc
    rw [O.blur_setDockerId, O.blur_setDockerId, hsc]

theorem shadows_containerIdOf (pod : ExportPodSpec) :
    Shadows O.Same Eq (containerIdOf pod) (containerIdOf pod) := by
  unfold containerIdOf
  cases pod.containerId? with
  | none => exact shadows_halt _
  | some scId => exact shadows_pure rfl

theorem shadows_insertDeployedPod (pod : ExportPodSpec) :
    Shadows O.Same Eq (insertDeployedPod pod) (insertDeployedPod pod) := by
  refine shadows_bind (O.shadows_containerIdOf pod) fun scId scId' hid => ?_
  subst hid
  refine shadows_modify fun m t h => ?_
  refine ⟨h.queue, h.link, h.agentsDb, ?_, h.dockerToSubContainer, h.depPodLock, h.memlock, h.look⟩
  dsimp only
  rw [h.deployedPods]

theorem shadows_insertPodSpec (pod : ExportPodSpec) :
    Shadows O.Same Eq (insertPodSpec pod) (insertPodSpec pod) := by
  unfold insertPodSpec
  refine shadows_bind (shadows_locked (O.shadows_insertDeployedPod pod) (fun _ _ h => h.depPodLock)
    fun _ _ h => ?_) fun _ _ _ => ?_
  · exact ⟨h.queue, h.link, h.agentsDb, h.deployedPods, h.dockerToSubContainer, rfl, h.memlock,
      h.look⟩
  refine shadows_bind (O.shadows_containerIdOf pod) fun scId scId' hid => ?_
  subst hid
  refine shadows_bind shadows_get fun m t h => ?_
  rw [h.dockerToSubContainer]
  cases m.dockerToSubContainer.lookup pod.dockerId with
  | some id => exact shadows_pure rfl
  | none =>
    refine shadows_bind (fun _ _ _ => .ret rfl ?_) fun _ _ _ => shadows_pure rfl
    refine ⟨h.queue, h.link, h.agentsDb, h.deployedPods, ?_, h.depPodLock, h.memlock, h.look⟩
    rfl

theorem shadows_reportPodSpec (pod : ExportPodSpec) :
    Shadows O.Same Eq (reportPodSpec pod) (reportPodSpec pod) := by
  unfold reportPodSpec
  refine shadows_bind (O.shadows_insertPodSpec pod) fun ret ret' hret => ?_
  subst hret
  refine shadows_ite Iff.rfl ?_ (shadows_pure rfl)
  refine shadows_bind (O.shadows_containerIdOf pod) fun scId scId' hid => ?_
  subst hid
  exact shadows_bind (O.shadows_matcher scId pod.dockerId) fun _ _ _ => shadows_pure rfl

/-- What is left of the queues by a deletion that all observers see. -/
theorem Same.queue_deleted {O : Observer β} {front front' : SubContainer}
    {rest rest' : List SubContainer} {m' t' : Manager} (h : O.Same m t)
    (hm : m.ec.subcontainers.lookup id = some (front :: rest))
    (ht : t.ec.subcontainers.lookup id = some (front' :: rest'))
    (hrest : rest'.map O.blur = rest.map O.blur)
    (hm' : m'.ec.subcontainers = (m.halfDeleted id).ec.subcontainers)
    (ht' : t'.ec.subcontainers = (t.halfDeleted id).ec.subcontainers) (id' : ContainerId) :
    O.queue t'.ec id' = O.queue m'.ec id' := by
  unfold Observer.queue
  rw [hm', ht', lookup_halfDeleted hm, lookup_halfDeleted ht]
  split
  · have hnil : rest' = [] ↔ rest = [] := by
      rw [← List.map_eq_nil_iff (f := O.blur), hrest, List.map_eq_nil_iff]
    by_cases hr : rest = []
    · rw [if_pos hr, if_pos (hnil.mpr hr)]
    · rw [if_neg hr, if_neg fun h' => hr (hnil.mp h'), Option.map_some, Option.map_some, hrest]
  · exact h.queue id'

/-- The part of a deletion that all observers see. -/
theorem Same.afterDelete {O : Observer β} {front front' : SubContainer}
    {rest rest' : List SubContainer} {dockerId : String} (h : O.Same m t)
    (hm : m.ec.subcontainers.lookup id = some (front :: rest))
    (ht : t.ec.subcontainers.lookup id = some (front' :: rest'))
    (hrest : rest'.map O.blur = rest.map O.blur)
    (hlook : O.look (t.afterDelete dockerId id front').totals =
      O.look (m.afterDelete dockerId id front).totals) :
    O.Same (m.afterDelete dockerId id front) (t.afterDelete dockerId id front') where
  queue := h.queue_deleted hm ht hrest ElasticContainer.subcontainers_updateFairCpuShare
    ElasticContainer.subcontainers_updateFairCpuShare
  link id' := by
    rw [scAcMap_afterDelete, scAcMap_afterDelete, lookup_erase', lookup_erase', h.link id']
  agentsDb := h.agentsDb
  deployedPods := by
    unfold Manager.afterDelete
    dsimp only
    rw [h.deployedPods]
  dockerToSubContainer := by
    unfold Manager.afterDelete
    dsimp only
    rw [h.dockerToSubContainer]
  depPodLock := h.depPodLock
  memlock := h.memlock
  look := hlook

/-- The part of a deletion that has to wait. -/
theorem Same.halfDeleted {O : Observer β} {front front' : SubContainer}
    {rest rest' : List SubContainer} (h : O.Same m t)
    (hm : m.ec.subcontainers.lookup id = some (front :: rest))
    (ht : t.ec.subcontainers.lookup id = some (front' :: rest'))
    (hrest : rest'.map O.blur = rest.map O.blur) :
    O.Same (m.halfDeleted id) (t.halfDeleted id) where
  queue := h.queue_deleted hm ht hrest rfl rfl
  link id' := by
    rw [scAcMap_halfDeleted, scAcMap_halfDeleted, lookup_erase', lookup_erase', h.link id']
  agentsDb := h.agentsDb
  deployedPods := h.deployedPods
  dockerToSubContainer := h.dockerToSubContainer
  depPodLock := h.depPodLock
  memlock := h.memlock
  look := by
    have htotals : ∀ u : Manager, (u.halfDeleted id).totals = u.totals := by
      intro u
      unfold Manager.totals
      rw [cpu_halfDeleted, mem_halfDeleted]
      unfold Manager.halfDeleted
      dsimp only
      rw [ElasticContainer.fairCpuShare_delete]
    rw [htotals, htotals]
    exact h.look

theorem Same.getScIdFromDockerId {O : Observer β} (h : O.Same m t) (dockerId : String) :
    t.getScIdFromDockerId dockerId = m.getScIdFromDockerId dockerId := by
  unfold Manager.getScIdFromDockerId
  rw [h.dockerToSubContainer]

/-- A deletion, for an observer that sees the same of every refund. -/
theorem shadows_deletePod (dockerId : String)
    (hlook : ∀ m t id front front' rest rest', O.Same m t → O.SameSc front front' →
      m.ec.subcontainers.lookup id = some (front :: rest) →
      t.ec.subcontainers.lookup id = some (front' :: rest') →
      O.look (t.afterDelete dockerId id front').totals =
        O.look (m.afterDelete dockerId id front).totals) :
    Shadows O.Same Eq (Manager.deletePod dockerId) (Manager.deletePod dockerId) := by
  intro m t h
  have hscId := h.getScIdFromDockerId dockerId
  generalize hid : m.getScIdFromDockerId dockerId = id at hscId
  by_cases hzero : id.cgroupId = 0
  · subst hid
    rw [deletePod_of_unknown hzero, deletePod_of_unknown (by rw [hscId]; exact hzero)]
    exact .ret rfl h
  rcases h.lookup id with ⟨hm, ht⟩ | ⟨q, q', hm, ht, hqq⟩
  · rw [deletePod_of_absent hid hzero hm, deletePod_of_absent hscId hzero ht]
    exact .halt _ h
  · cases q with
    | nil =>
      rw [List.map_nil, List.map_eq_nil_iff] at hqq
      subst hqq
      rw [deletePod_of_empty hid hzero hm, deletePod_of_empty hscId hzero ht]
      exact .halt _ h
    | cons front rest =>
      obtain ⟨front', rest', rfl, hfront, hrest⟩ := List.map_eq_cons_iff.mp hqq
      have hlock := h.depPodLock
      cases hm' : m.depPodLock with
      | true =>
        rw [hm'] at hlock
        rw [deletePod_of_locked hid hzero hm hm', deletePod_of_locked hscId hzero ht hlock]
        exact .halt _ (h.halfDeleted hm ht hrest)
      | false =>
        rw [hm'] at hlock
        rw [deletePod_of_front hid hzero hm hm', deletePod_of_front hscId hzero ht hlock]
        refine .ret ?_ (h.afterDelete hm ht hrest (hlook m t id _ _ _ _ h hfront hm ht))
        unfold deleteReply
        rw [h.link, h.deployedPods, h.dockerToSubContainer]

end Registration

end Observer

/-! ## Where every lookup finds an agent -/

namespace Manager

variable {m t : Manager} {id : ContainerId}

/-- Every instance has been inserted, and every container has its agent. -/
structure Attended (m : Manager) : Prop where
  inserted : ∀ id q, m.ec.subcontainers.lookup id = some q → ∀ sc ∈ q, sc.inserted = true
  agent : ∀ id q, m.ec.subcontainers.lookup id = some q → ∃ agent, m.ec.agent? id = some agent

/-- Moreover, no lookup has left a null entry behind. -/
structure Orderly (m : Manager) : Prop extends Attended m where
  entries : ∀ id, m.ec.scAcMap.lookup id ≠ some none

theorem orderly_new (agentsDb : UnorderedMap Ip4Addr AgentClient) :
    (Manager.new agentsDb).Orderly := ⟨⟨nofun, nofun⟩, nofun⟩

instance (m : Manager) : Decidable m.Orderly :=
  decidable_of_iff
    ((∀ id ∈ m.ec.subcontainers.keys, ∀ q ∈ m.ec.subcontainers.lookup id,
      (∀ sc ∈ q, sc.inserted = true) ∧ (m.ec.agent? id).isSome) ∧
      ∀ id ∈ m.ec.scAcMap.keys, m.ec.scAcMap.lookup id ≠ some none) <| by
    constructor
    · rintro ⟨hqueues, hentries⟩
      have hmem : ∀ id q, m.ec.subcontainers.lookup id = some q →
          id ∈ m.ec.subcontainers.keys := fun id q hq => mem_keys_iff_lookup.mpr ⟨q, hq⟩
      refine ⟨⟨fun id q hq => (hqueues id (hmem id q hq) q hq).1, fun id q hq => ?_⟩,
        fun id hnull => hentries id (mem_keys_iff_lookup.mpr ⟨_, hnull⟩) hnull⟩
      exact Option.isSome_iff_exists.mp (hqueues id (hmem id q hq) q hq).2
    · intro h
      refine ⟨fun id _ q hq => ⟨h.inserted id q hq, ?_⟩, fun id _ => h.entries id⟩
      exact Option.isSome_iff_exists.mpr (h.agent id q hq)

/-- Who has been inserted and who has an agent does not change where only quotas and limits do. -/
theorem Attended.of_quiet (h : m.Attended) (hq : Quiet m t) : t.Attended := by
  have hqueue : ∀ id q', t.ec.subcontainers.lookup id = some q' →
      ∃ q, m.ec.subcontainers.lookup id = some q ∧
        q.map SubContainer.identity = q'.map SubContainer.identity := by
    intro id q' ht
    have hshape := congrFun hq.shape id
    unfold ElasticContainer.shape at hshape
    rw [ht, Option.map_some] at hshape
    exact Option.map_eq_some_iff.mp hshape.symm
  refine ⟨fun id q' ht sc' hsc' => ?_, fun id q' ht => ?_⟩
  · obtain ⟨q, hm, hmap⟩ := hqueue id q' ht
    have hmem : sc'.identity ∈ q.map SubContainer.identity := hmap ▸ List.mem_map_of_mem hsc'
    obtain ⟨sc, hsc, heq⟩ := List.mem_map.mp hmem
    have hins : sc.inserted = sc'.inserted := congrArg (fun i => i.2.2.2) heq
    rw [← hins]
    exact h.inserted id q hm sc hsc
  · obtain ⟨q, hm, -⟩ := hqueue id q' ht
    rw [hq.agent]
    exact h.agent id q hm

/-- Where there are no null entries, the answers of the lookups are all there is. -/
theorem Orderly.link_eq (hm : m.Orderly) (ht : t.Orderly)
    (hagent : ∀ id, t.ec.agent? id = m.ec.agent? id) (id : ContainerId) :
    t.ec.scAcMap.lookup id = m.ec.scAcMap.lookup id := by
  have hid := hagent id
  have hne := hm.entries id
  have hne' := ht.entries id
  unfold ElasticContainer.agent? at hid
  generalize m.ec.scAcMap.lookup id = o at hid hne ⊢
  generalize t.ec.scAcMap.lookup id = o' at hid hne' ⊢
  rcases o with _ | _ | a
  · rcases o' with _ | _ | a'
    · rfl
    · exact absurd rfl hne'
    · cases hid
  · exact absurd rfl hne
  · rcases o' with _ | _ | a'
    · cases hid
    · exact absurd rfl hne'
    · exact congrArg some hid

end Manager

namespace Observer

variable {β : Type} {O : Observer β} {m t : Manager}

theorem Same.agent? (h : O.Same m t) (id : ContainerId) : t.ec.agent? id = m.ec.agent? id := by
  unfold ElasticContainer.agent?
  rw [h.link id]

/-- Whose queues an observer sees the same of have the same instances in them. -/
theorem Same.shape (h : O.Same m t) : t.ec.shape = m.ec.shape := by
  have hidentity : SubContainer.identity ∘ O.blur = SubContainer.identity :=
    funext O.identity_blur
  have hshape : ∀ ec : ElasticContainer, ∀ id,
      (O.queue ec id).map (List.map SubContainer.identity) = ec.shape id := by
    intro ec id
    unfold Observer.queue ElasticContainer.shape
    rw [Option.map_map]
    congr 1
    funext q
    rw [Function.comp_apply, List.map_map, hidentity]
  funext id
  rw [← hshape, ← hshape, h.queue id]

theorem Same.quiet (h : O.Same m t) : Quiet m t :=
  ⟨h.shape, h.agent?, h.agentsDb, h.deployedPods, h.dockerToSubContainer, h.depPodLock⟩

theorem Same.orderly (h : O.Same m t) (hm : m.Orderly) : t.Orderly where
  toAttended := hm.toAttended.of_quiet h.quiet
  entries id := by
    rw [h.link id]
    exact hm.entries id

end Observer

end EcGcm
