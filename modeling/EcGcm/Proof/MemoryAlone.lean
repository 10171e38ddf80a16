import EcGcm.Proof.Observers

/-!
# Memory control does not depend on CPU control

Take the CPU reports and the idle sweeps out of a run: who is registered, the memory pool and every
recorded memory limit end up the same (`memory_alone`). The two halves of the controller share the
containers, the agent map and the threads that serve them, so this is not for free. It is true as
long as every container has its agent (`Manager.Attended`) and the memory calls to agents and
cAdvisor have answers (`Event.Answered`): then no lookup of an agent fails, and a reclaim pass comes
back in whatever order it visits the containers.

The observer of the proof sees the pool and the limits. It overlooks the CPU handlers; all others it
can follow. A reclaim pass it can follow though the map of containers may be in another order, since
what a pass does to one container and adds to the total is decided by that container alone.
-/

set_option autoImplicit false

namespace EcGcm

open Handler Manager ElasticContainer UnorderedMap

/-- Sees memory, and blurs all that CPU control writes. -/
def memoryObserver : Observer Global.Mem where
  blur sc := { sc with cpu := .new 0 0, quotaMismatchCounter := 0, lastSeenTs := 0 }
  look := Totals.mem
  identity_blur _ := rfl
  blur_setDockerId _ _ := rfl
  blur_setScInserted _ _ := rfl

/-- The same registrations, the same pool, the same limits. -/
abbrev SameMemory (m t : Manager) : Prop := memoryObserver.Same m t

section Instances

variable {sc sc' : SubContainer}

theorem memLimit_of_same (h : memoryObserver.SameSc sc sc') :
    sc'.memLimitInPages = sc.memLimitInPages := by
  have hblur : memoryObserver.blur sc' = memoryObserver.blur sc := h
  show (memoryObserver.blur sc').memLimitInPages = (memoryObserver.blur sc).memLimitInPages
  rw [hblur]

theorem sameSc_setMemLimitInPages (h : memoryObserver.SameSc sc sc') (limit : UInt64) :
    memoryObserver.SameSc (sc.setMemLimitInPages limit) (sc'.setMemLimitInPages limit) := by
  have hblur : memoryObserver.blur sc' = memoryObserver.blur sc := h
  exact congrArg (fun c : SubContainer => c.setMemLimitInPages limit) hblur

end Instances

/-! ## A reclaim pass in which everybody has an agent -/

/-- Readings and resizes all come to an answer. -/
structure Env.Answers (env : Env) : Prop where
  usage : ∀ id, (env.getContMemUsage id).isSome
  limit : ∀ id, (env.getContMemLimit id).isSome
  resize : ∀ id, (env.resizeMemoryLimitPages id).isSome

theorem Env.answers_uniform (now quotaStatus memStatus : Int) (usage limit : UInt64) :
    (Env.uniform now quotaStatus memStatus usage limit).Answers :=
  ⟨fun _ => rfl, fun _ => rfl, fun _ => rfl⟩

namespace Manager

variable {m s t : Manager} {env : Env} {id : ContainerId} {sc : SubContainer} {agent : AgentClient}

/-- Whether `reclaim` shrinks the instance, once it has found the agent. -/
def Shrunk (m : Manager) (env : Env) (id : ContainerId) (sc : SubContainer) : Prop :=
  m.Reclaimable env id sc ∧ env.resizeMemoryLimitPages id = some 0

instance : Decidable (m.Shrunk env id sc) := inferInstanceAs (Decidable (_ ∧ _))

/-- What `reclaim` frees. -/
def freed (m : Manager) (env : Env) (id : ContainerId) (sc : SubContainer) : UInt64 :=
  if m.Shrunk env id sc then
    byteToPage (pageToByte sc.memLimitInPages - m.resizeTarget env id sc)
  else 0

/-- What `reclaim` leaves of the instance. -/
def reclaimed (m : Manager) (env : Env) (id : ContainerId) (sc : SubContainer) : SubContainer :=
  if m.Shrunk env id sc then
    sc.setMemLimitInPages (byteToPage (m.resizeTarget env id sc))
  else sc

/-- `reclaim` on a container with an agent touches that container or nothing. -/
theorem wp_reclaim_of_agent {Q : UInt64 → Manager → Prop} {E : Halt → Manager → Prop}
    (hans : env.Answers) (ha : m.ec.agent? id = some agent) (hb : m.ec.back? id = some sc)
    (hid : sc.cId = id) (hkept : ¬ m.Shrunk env id sc → Q 0 m)
    (hshrunk : m.Shrunk env id sc →
      Q (byteToPage (pageToByte sc.memLimitInPages - m.resizeTarget env id sc))
        { m with ec := m.ec.modifyBack id fun sc' =>
          sc'.setMemLimitInPages (byteToPage (m.resizeTarget env id sc)) }) :
    wp (reclaim env id sc) Q E m := by
  have hreads : m.ReadsUsage env id sc := .inr (.inr (hans.usage id))
  unfold reclaim
  rw [wp_bind, wp_of_run (run_scGetMemoryUsageInBytesCadvisor ha hreads), wp_ite]
  split
  · rename_i hmark
    exact hkept fun h => absurd hmark h.1.2.1
  · rename_i hvalid
    rw [wp_ite]
    split
    · rename_i hgap
      obtain ⟨status, hstatus⟩ := Option.isSome_iff_exists.mp (hans.resize id)
      have hresize := run_scResizeMemoryLimitInPages env ha
      rw [hstatus] at hresize
      have hdone : (scResizeMemoryLimitInPages env id).run m = .ret status m := hresize.trans rfl
      rw [wp_bind, wp_of_run hdone, wp_ite]
      split
      · rename_i hzero
        have hb' : m.ec.back? sc.cId = some sc := by
          rw [hid]
          exact hb
        unfold scSetMemoryLimitInPages
        rw [wp_bind, wp_bind, wp_ecGetScForUpdate hb', hid]
        exact hshrunk ⟨⟨hreads, hvalid, hgap⟩, hstatus.trans (congrArg some hzero)⟩
      · rename_i hfailed
        exact hkept fun h => hfailed (Option.some.inj (hstatus.symm.trans h.2))
    · rename_i hgap
      exact hkept fun h => absurd h.1.2.2 hgap

/-- What a pass leaves of the newest instance of `id`. -/
def passed (m : Manager) (env : Env) (keep : SubContainer → Bool) (id : ContainerId)
    (sc : SubContainer) : SubContainer :=
  if keep sc then sc else m.reclaimed env id sc

/-- What `id` adds to the total of a pass. -/
def share (m : Manager) (env : Env) (keep : SubContainer → Bool) (id : ContainerId) : UInt64 :=
  (m.ec.back? id).elim 0 fun sc => if keep sc then 0 else m.freed env id sc

/-- `s` is `m` after a pass over `ids`. -/
structure PassedOver (m : Manager) (env : Env) (keep : SubContainer → Bool)
    (ids : List ContainerId) (s : Manager) : Prop where
  lookup : ∀ id, s.ec.subcontainers.lookup id =
    if id ∈ ids then (m.ec.subcontainers.lookup id).map (List.modifyLast (m.passed env keep id))
    else m.ec.subcontainers.lookup id
  rest : s = { m with ec := { m.ec with subcontainers := s.ec.subcontainers } }

variable {keep : SubContainer → Bool} {done ids : List ContainerId}

theorem PassedOver.scAcMap (h : PassedOver m env keep done s) : s.ec.scAcMap = m.ec.scAcMap := by
  rw [h.rest]

theorem PassedOver.totals (h : PassedOver m env keep done s) : s.totals = m.totals := by
  rw [h.rest]
  rfl

theorem PassedOver.agent? (h : PassedOver m env keep done s) (id : ContainerId) :
    s.ec.agent? id = m.ec.agent? id := by
  rw [h.rest]
  rfl

theorem PassedOver.back? (h : PassedOver m env keep done s) (hid : id ∉ done) :
    s.ec.back? id = m.ec.back? id := by
  unfold ElasticContainer.back?
  rw [h.lookup, if_neg hid]

/-- One container more, which the pass left as it was. -/
theorem PassedOver.spare (h : PassedOver m env keep done s) (hid : id ∉ done)
    (hb : m.ec.back? id = some sc) (hsc : m.passed env keep id sc = sc) :
    PassedOver m env keep (done ++ [id]) s := by
  refine ⟨fun id' => ?_, h.rest⟩
  by_cases heq : id' = id
  · subst heq
    obtain ⟨l, hl⟩ := lookup_of_back? hb
    rw [h.lookup, if_neg hid, if_pos (by simp), hl, Option.map_some, List.modifyLast_concat, hsc]
  · rw [h.lookup]
    simp only [List.mem_append, List.mem_singleton, heq, or_false]

/-- One container more, which has been given another limit. -/
theorem PassedOver.write (h : PassedOver m env keep done s) (hid : id ∉ done)
    (hb : m.ec.back? id = some sc) {f : SubContainer → SubContainer}
    (hsc : m.passed env keep id sc = f sc) :
    PassedOver m env keep (done ++ [id]) { s with ec := s.ec.modifyBack id f } := by
  have hbs : s.ec.back? id = some sc := (h.back? hid).trans hb
  obtain ⟨l, hl⟩ := lookup_of_back? hbs
  refine ⟨fun id' => ?_, ?_⟩
  · dsimp only
    rw [ElasticContainer.lookup_modifyBack]
    by_cases heq : id' = id
    · subst heq
      have hm := h.lookup id'
      rw [if_neg hid, hl] at hm
      rw [if_pos rfl, if_pos (by simp), hl, ← hm, Option.map_some, Option.map_some,
        List.modifyLast_concat, List.modifyLast_concat, hsc]
    · rw [if_neg heq, h.lookup]
      simp only [List.mem_append, List.mem_singleton, heq, or_false]
  · dsimp only
    unfold ElasticContainer.modifyBack
    rw [hl]
    exact congrArg (fun u : Manager => { u with ec := { u.ec with
      subcontainers := s.ec.subcontainers.insert id ((l ++ [sc]).modifyLast f) } }) h.rest

/-- **What a pass does where everybody has an agent.** It comes back. -/
theorem wp_reclaimFrom_attended (hans : env.Answers) (hatt : m.Attended) (hqueued : m.ec.Queued)
    (h : PassedOver m env keep done s) (hnd : (done ++ ids).Nodup)
    (hkeys : ∀ id ∈ ids, id ∈ m.ec.subcontainers.keys) :
    wp (reclaimFrom env keep ids) (fun total s' =>
      total = (ids.map (m.share env keep)).sum ∧ PassedOver m env keep (done ++ ids) s')
      (fun _ _ => False) s := by
  induction ids generalizing done s with
  | nil =>
    refine ⟨rfl, ?_⟩
    rw [List.append_nil]
    exact h
  | cons id ids ih =>
    have hid : id ∉ done := fun hmem => List.disjoint_of_nodup_append hnd hmem List.mem_cons_self
    obtain ⟨q, hq⟩ := mem_keys_iff_lookup.mp (hkeys id List.mem_cons_self)
    obtain ⟨sc, hb⟩ := hqueued.back hq
    have hbs : s.ec.back? id = some sc := (h.back? hid).trans hb
    obtain ⟨agent, ha⟩ := hatt.agent id q hq
    have hshare : m.share env keep id = if keep sc then 0 else m.freed env id sc := by
      unfold share
      rw [hb]
      rfl
    -- the rest, once `id` has been passed
    have hrest : ∀ pages s', PassedOver m env keep (done ++ [id]) s' →
        m.share env keep id = pages → wp (reclaimFrom env keep ids) (fun r s'' =>
          pages + r = ((id :: ids).map (m.share env keep)).sum ∧
            PassedOver m env keep (done ++ id :: ids) s'') (fun _ _ => False) s' := by
      intro pages s' hs' hpages
      have hnd' : (done ++ [id] ++ ids).Nodup := by
        rw [List.append_assoc]
        exact hnd
      refine wp_mono_ret (ih hs' hnd' fun i hi => hkeys i (List.mem_cons_of_mem _ hi)) ?_
      rintro r s'' ⟨hr, hs''⟩
      rw [List.append_assoc] at hs''
      rw [List.map_cons, List.sum_cons, ← hr, hpages]
      exact ⟨rfl, hs''⟩
    refine wp_reclaimFrom_cons (fun hnone => ?_) (fun sc' hb' hk => ?_) (fun sc' hb' hk => ?_)
    · rw [hbs] at hnone
      cases hnone
    · obtain rfl : sc = sc' := Option.some.inj (hbs.symm.trans hb')
      rw [if_pos hk] at hshare
      have hsc : m.passed env keep id sc = sc := if_pos hk
      refine wp_mono_ret (hrest 0 s (h.spare hid hb hsc) hshare) fun r s'' hr => ?_
      rw [UInt64.zero_add] at hr
      exact hr
    · obtain rfl : sc = sc' := Option.some.inj (hbs.symm.trans hb')
      have hk' : ¬ keep sc = true := by simp [hk]
      rw [if_neg hk'] at hshare
      have hsc : m.passed env keep id sc = m.reclaimed env id sc := if_neg hk'
      have hshrunk : s.Shrunk env id sc ↔ m.Shrunk env id sc := by
        unfold Shrunk
        rw [reclaimable_congr h.agent?]
      refine wp_reclaim_of_agent hans ((h.agent? id).trans ha) hbs (hqueued.cId_of_back hb)
        (fun hno => hrest 0 s ?_ ?_) (fun hyes => hrest _ _ ?_ ?_)
      · refine h.spare hid hb (hsc.trans (if_neg fun hm => hno (hshrunk.mpr hm)))
      · rw [hshare]
        exact if_neg fun hm => hno (hshrunk.mpr hm)
      · refine h.write hid hb (hsc.trans ?_)
        rw [resizeTarget_congr h.agent?]
        exact if_pos (hshrunk.mp hyes)
      · rw [hshare, resizeTarget_congr h.agent?]
        exact if_pos (hshrunk.mp hyes)

/-! ## Seen from two states -/

section Same

variable {sc' : SubContainer}

theorem usageOf_same (h : SameMemory m t) (hsc : memoryObserver.SameSc sc sc') :
    t.usageOf env id sc' = m.usageOf env id sc := by
  unfold usageOf
  rw [h.agent? id, hsc.dockerId]

theorem resizeTarget_same (h : SameMemory m t) (hsc : memoryObserver.SameSc sc sc') :
    t.resizeTarget env id sc' = m.resizeTarget env id sc := by
  unfold resizeTarget
  rw [usageOf_same h hsc]

theorem shrunk_same (h : SameMemory m t) (hsc : memoryObserver.SameSc sc sc') :
    t.Shrunk env id sc' ↔ m.Shrunk env id sc := by
  unfold Shrunk Reclaimable ReadsUsage
  rw [usageOf_same h hsc, memLimit_of_same hsc, h.agent? id, hsc.dockerId]

theorem freed_same (h : SameMemory m t) (hsc : memoryObserver.SameSc sc sc') :
    t.freed env id sc' = m.freed env id sc := by
  unfold freed
  rw [resizeTarget_same h hsc, memLimit_of_same hsc]
  simp only [shrunk_same h hsc]

theorem passed_same (h : SameMemory m t) (hsc : memoryObserver.SameSc sc sc')
    (hkeep : keep sc' = keep sc) :
    memoryObserver.SameSc (m.passed env keep id sc) (t.passed env keep id sc') := by
  unfold passed
  rw [hkeep]
  by_cases hk : keep sc = true
  · rw [if_pos hk, if_pos hk]
    exact hsc
  · rw [if_neg hk, if_neg hk]
    unfold reclaimed
    by_cases hs : m.Shrunk env id sc
    · rw [if_pos hs, if_pos ((shrunk_same h hsc).mpr hs), resizeTarget_same h hsc]
      exact sameSc_setMemLimitInPages hsc _
    · rw [if_neg hs, if_neg fun hs' => hs ((shrunk_same h hsc).mp hs')]
      exact hsc

/-- The instances a pass spares are told by their sockets. -/
def BySocket (keep : SubContainer → Bool) : Prop := ∀ sc sc' : SubContainer, sc'.fd = sc.fd →
  keep sc' = keep sc

theorem share_same (h : SameMemory m t) (hkeep : BySocket keep) (id : ContainerId) :
    t.share env keep id = m.share env keep id := by
  unfold share
  rcases h.back id with ⟨hm, ht⟩ | ⟨sc, sc', hm, ht, hsc⟩
  · rw [hm, ht, Option.elim_none, Option.elim_none]
  · rw [hm, ht, Option.elim_some, Option.elim_some, hkeep sc sc' hsc.fd, freed_same h hsc]

/-- Both passes end in the same, in whatever order they go through the containers. -/
theorem PassedOver.same {s s' : Manager} {ids' : List ContainerId} (h : SameMemory m t)
    (hkeep : BySocket keep) (hids : ids'.Perm ids) (hs : PassedOver m env keep ids s)
    (hs' : PassedOver t env keep ids' s') : SameMemory s s' := by
  refine ⟨fun id => ?_, fun id => ?_, ?_, ?_, ?_, ?_, ?_, ?_⟩
  rotate_left
  · rw [hs.scAcMap, hs'.scAcMap, h.link]
  · rw [hs.rest, hs'.rest, h.agentsDb]
  · rw [hs.rest, hs'.rest, h.deployedPods]
  · rw [hs.rest, hs'.rest, h.dockerToSubContainer]
  · rw [hs.rest, hs'.rest, h.depPodLock]
  · rw [hs.rest, hs'.rest, h.memlock]
  · rw [hs.totals, hs'.totals, h.look]
  unfold Observer.queue
  rw [hs.lookup, hs'.lookup]
  simp only [hids.mem_iff]
  split
  · rcases h.lookup id with ⟨hm, ht⟩ | ⟨q, q', hm, ht, hqq⟩
    · rw [hm, ht, Option.map_none, Option.map_none, Option.map_none, Option.map_none]
    · rw [hm, ht, Option.map_some, Option.map_some, Option.map_some, Option.map_some]
      refine congrArg some (Observer.map_modifyLast hqq fun sc sc' _ _ hsc => ?_)
      exact passed_same h hsc (hkeep sc sc' hsc.fd)
  · exact h.queue id

end Same

/-- A pass over all containers, seen from two states. -/
theorem same_pass (hans : env.Answers) (hatt : m.Attended) (hqueued : m.ec.Queued)
    (h : SameMemory m t) (hkeep : BySocket keep) :
    ∃ freed s s', (reclaimFrom env keep m.ec.subcontainers.keys).run m = .ret freed s ∧
      (reclaimFrom env keep t.ec.subcontainers.keys).run t = .ret freed s' ∧ SameMemory s s' := by
  have hzero : ∀ u : Manager, PassedOver u env keep [] u :=
    fun u => ⟨fun id => by rw [if_neg List.not_mem_nil], rfl⟩
  have hpass : ∀ u : Manager, u.Attended → u.ec.Queued → ∃ s,
      (reclaimFrom env keep u.ec.subcontainers.keys).run u =
        .ret (u.ec.subcontainers.keys.map (u.share env keep)).sum s ∧
      PassedOver u env keep u.ec.subcontainers.keys s := by
    intro u hu huq
    obtain ⟨total, s, hrun, rfl, hs⟩ := wp_total.mp (wp_reclaimFrom_attended hans hu huq (hzero u)
      (AList.keys_nodup u.ec.subcontainers) fun _ hid => hid)
    exact ⟨s, hrun, hs⟩
  obtain ⟨s, hrun, hs⟩ := hpass m hatt hqueued
  obtain ⟨s', hrun', hs'⟩ := hpass t (hatt.of_quiet h.quiet) (hqueued.of_shape h.shape)
  have htotal : (t.ec.subcontainers.keys.map (t.share env keep)).sum =
      (m.ec.subcontainers.keys.map (m.share env keep)).sum := by
    rw [(h.keys.map (t.share env keep)).sum_eq]
    exact congrArg List.sum (List.map_congr_left fun id _ => share_same h hkeep id)
  rw [htotal] at hrun'
  exact ⟨_, s, s', hrun, hrun', PassedOver.same h hkeep h.keys hs hs'⟩

/-! ## The memory handlers -/

/-- Both states look the same, and in the first one everybody has an agent. -/
def SameAttended (m t : Manager) : Prop := (m.Attended ∧ m.ec.Queued) ∧ SameMemory m t

section Handlers

variable {α : Type} {x : M α}

theorem shadows_of_quiet (h : Shadows SameMemory Eq x x) (hx : Keeps Quiet x) :
    Shadows SameAttended Eq x x :=
  h.and_of_keeps hx fun _ _ hquiet hI => ⟨hI.1.of_quiet hquiet, hquiet.queued hI.2⟩

/-- What returns the same from two states that look the same. -/
theorem shadows_of_ret (hx : Keeps Quiet x)
    (h : ∀ m t, SameAttended m t → ∃ a s s', x.run m = .ret a s ∧ x.run t = .ret a s' ∧
      SameMemory s s') : Shadows SameAttended Eq x x := by
  intro m t hmt
  obtain ⟨a, s, s', hrun, hrun', hs⟩ := h m t hmt
  have hquiet : Quiet m (x.run m).state := hx m
  rw [hrun] at hquiet ⊢
  rw [hrun']
  exact .ret rfl ⟨⟨hmt.1.1.of_quiet hquiet, hquiet.queued hmt.1.2⟩, hs⟩

theorem shadows_handleReclaimMemory (hans : env.Answers) (clientFd : Int) :
    Shadows SameAttended Eq (handleReclaimMemory env clientFd)
      (handleReclaimMemory env clientFd) := by
  refine shadows_of_ret quiet_mem.handleReclaimMemory fun m t h => ?_
  have hkeep : BySocket fun sc => sc.fd = clientFd := fun sc sc' hfd => by
    dsimp only
    rw [hfd]
  obtain ⟨freed, s, s', hrun, hrun', hs⟩ := same_pass hans h.1.1 h.1.2 h.2 hkeep
  exact ⟨freed, s, s', run_handleReclaimMemory_iff.mpr hrun,
    run_handleReclaimMemory_iff.mpr hrun', hs⟩

theorem shadows_modifyMem (f : Global.Mem → Global.Mem) :
    Shadows SameMemory Eq (modifyMem f) (modifyMem f) :=
  shadows_modify fun _ _ h =>
    ⟨h.queue, h.link, h.agentsDb, h.deployedPods, h.dockerToSubContainer, h.depPodLock, h.memlock,
      congrArg f h.look⟩

theorem shadows_ecUpdateAllocMemoryInPages (mem : UInt64) :
    Shadows SameMemory Eq (ecUpdateAllocMemoryInPages mem) (ecUpdateAllocMemoryInPages mem) :=
  shadows_bind (shadows_modifyMem _) fun _ _ _ => shadows_modifyMem _

theorem shadows_ecUpdateReclaimMemoryInPages (mem : UInt64) :
    Shadows SameMemory Eq (ecUpdateReclaimMemoryInPages mem) (ecUpdateReclaimMemoryInPages mem) :=
  shadows_bind (shadows_modifyMem _) fun _ _ _ => shadows_modifyMem _

theorem shadows_fillNegativePool (memoryAvailable : Int64) :
    Shadows SameMemory Eq (fillNegativePool memoryAvailable) (fillNegativePool memoryAvailable) :=
  shadows_bind (shadows_modifyMem _) fun _ _ _ => shadows_modifyMem _

theorem shadows_setMemLimitInPages (id : ContainerId) (limit : UInt64) :
    Shadows SameMemory Eq (Manager.modifyBack id fun sc => sc.setMemLimitInPages limit)
      (Manager.modifyBack id fun sc => sc.setMemLimitInPages limit) :=
  memoryObserver.shadows_modifyBack (fun _ _ hsc => sameSc_setMemLimitInPages hsc limit) id

theorem mem_of_same (h : SameMemory m t) : t.ec.mem = m.ec.mem := h.look

theorem shadows_grantMemory (req : Msg) (memoryAvailable : Int64) :
    Shadows SameMemory Eq (grantMemory req memoryAvailable) (grantMemory req memoryAvailable) := by
  unfold grantMemory
  refine shadows_bind shadows_get fun m t h => ?_
  rw [mem_of_same h]
  refine shadows_bind (shadows_ecUpdateAllocMemoryInPages _) fun _ _ _ => ?_
  refine shadows_bind (memoryObserver.shadows_ecGetScForUpdate _) fun _ _ _ => ?_
  exact shadows_bind (shadows_setMemLimitInPages _ _) fun _ _ _ => shadows_pure rfl

theorem shadows_handleMemReq (hans : env.Answers) (req : Msg) (clifd : Int) :
    Shadows SameAttended Eq (handleMemReq env req clifd) (handleMemReq env req clifd) := by
  have hgrant : ∀ available, Shadows SameAttended Eq (grantMemory req available)
      (grantMemory req available) :=
    fun available => shadows_of_quiet (shadows_grantMemory req available) quiet_mem.grantMemory
  have hcredit : ∀ freed, Shadows SameAttended Eq
      (ecUpdateReclaimMemoryInPages freed >>= fun _ => get >>= fun m : Manager =>
        grantMemory req m.ec.mem.unallocatedMemoryInPages)
      (ecUpdateReclaimMemoryInPages freed >>= fun _ => get >>= fun m : Manager =>
        grantMemory req m.ec.mem.unallocatedMemoryInPages) := by
    intro freed
    refine shadows_bind (shadows_of_quiet (shadows_ecUpdateReclaimMemoryInPages freed)
      quiet_mem.ecUpdateReclaimMemoryInPages) fun _ _ _ => ?_
    refine shadows_bind shadows_get fun m t h => ?_
    rw [mem_of_same h.2]
    exact hgrant _
  unfold handleMemReq
  refine shadows_ite Iff.rfl (shadows_pure rfl) (shadows_locked ?_ (fun _ _ h => h.2.memlock) ?_)
  rotate_left
  · rintro m t ⟨⟨hatt, hqueued⟩, h⟩
    exact ⟨⟨⟨hatt.inserted, hatt.agent⟩, hqueued⟩, h.queue, h.link, h.agentsDb, h.deployedPods,
      h.dockerToSubContainer, h.depPodLock, rfl, h.look⟩
  unfold serveMemReq
  refine shadows_bind shadows_get fun m t h => ?_
  rw [mem_of_same h.2]
  refine shadows_ite Iff.rfl (hgrant _) ?_
  refine shadows_bind (shadows_handleReclaimMemory hans clifd) fun freed freed' hfreed => ?_
  subst hfreed
  refine shadows_ite Iff.rfl (shadows_ite Iff.rfl ?_ (hcredit freed)) (shadows_pure rfl)
  exact shadows_bind (shadows_of_quiet (shadows_fillNegativePool _) quiet_mem.fillNegativePool)
    fun _ _ _ => hcredit freed

theorem shadows_answer {β : Type} (lost : Halt) (o : Option β) :
    Shadows SameMemory Eq (answer lost o) (answer lost o) := by
  cases o with
  | none => exact shadows_halt _
  | some b => exact shadows_pure rfl

theorem shadows_scGetMemoryLimitInBytesCadvisor (id : ContainerId) (dockerId : String) :
    Shadows SameMemory Eq (scGetMemoryLimitInBytesCadvisor env id dockerId)
      (scGetMemoryLimitInBytesCadvisor env id dockerId) := by
  unfold scGetMemoryLimitInBytesCadvisor
  refine shadows_bind (memoryObserver.shadows_getCorresAgentClient id) fun client client' hc => ?_
  subst hc
  cases client with
  | none => exact shadows_pure rfl
  | some agent => exact shadows_ite Iff.rfl (shadows_pure rfl) (shadows_answer _ _)

theorem shadows_scResizeMemoryLimitInPages (id : ContainerId) :
    Shadows SameMemory Eq (scResizeMemoryLimitInPages env id)
      (scResizeMemoryLimitInPages env id) := by
  unfold scResizeMemoryLimitInPages
  refine shadows_bind (memoryObserver.shadows_getCorresAgentClient id) fun client client' hc => ?_
  subst hc
  cases client with
  | none => exact shadows_halt _
  | some agent => exact shadows_answer _ _

theorem shadows_chargeNewPod (hans : env.Answers) (id : ContainerId) (clifd : Int)
    (pages : UInt64) :
    Shadows SameAttended Eq (chargeNewPod env id clifd pages)
      (chargeNewPod env id clifd pages) := by
  have halloc := shadows_of_quiet (shadows_ecUpdateAllocMemoryInPages pages)
    quiet_mem.ecUpdateAllocMemoryInPages
  unfold chargeNewPod
  refine shadows_bind shadows_get fun m t h => ?_
  rw [mem_of_same h.2]
  refine shadows_ite Iff.rfl halloc (shadows_ite Iff.rfl (shadows_pure rfl) ?_)
  refine shadows_bind (shadows_handleReclaimMemory hans clifd) fun freed freed' hfreed => ?_
  subst hfreed
  refine shadows_bind (shadows_of_quiet (shadows_ecUpdateReclaimMemoryInPages freed)
    quiet_mem.ecUpdateReclaimMemoryInPages) fun _ _ _ => ?_
  refine shadows_bind shadows_get fun m t h => ?_
  rw [mem_of_same h.2]
  refine shadows_ite Iff.rfl halloc ?_
  refine shadows_bind (shadows_of_quiet (shadows_scResizeMemoryLimitInPages id)
    quiet_mem.scResizeMemoryLimitInPages) fun notResized notResized' hn => ?_
  subst hn
  exact shadows_ite Iff.rfl (shadows_pure rfl) halloc

theorem shadows_determineMemLimitForNewPod (hans : env.Answers) (id : ContainerId)
    (clifd : Int) :
    Shadows SameAttended Eq (determineMemLimitForNewPod env id clifd)
      (determineMemLimitForNewPod env id clifd) := by
  have hback : Shadows SameAttended memoryObserver.SameSc (backOf id) (backOf id) :=
    (memoryObserver.shadows_backOf id).and_of_keeps (keeps_backOf (R := Quiet))
      fun _ _ hquiet hI => ⟨hI.1.of_quiet hquiet, hquiet.queued hI.2⟩
  unfold determineMemLimitForNewPod
  refine shadows_bind hback fun sc sc' hsc => ?_
  rw [hsc.dockerId, hsc.cId]
  refine shadows_ite Iff.rfl (shadows_halt _) ?_
  refine shadows_bind (shadows_of_quiet (shadows_scGetMemoryLimitInBytesCadvisor _ _)
    quiet_mem.scGetMemoryLimitInBytesCadvisor) fun bytes bytes' hbytes => ?_
  subst hbytes
  refine shadows_bind (shadows_chargeNewPod hans _ _ _) fun _ _ _ => ?_
  exact shadows_of_quiet (shadows_setMemLimitInPages _ _) quiet_mem.setMemLimitInPages

theorem shadows_periodicReclaim (hans : env.Answers) :
    Shadows SameAttended Eq (Manager.periodicReclaim env) (Manager.periodicReclaim env) := by
  refine shadows_of_ret quiet_mem.periodicReclaim fun m t h => ?_
  obtain ⟨freed, s, s', hrun, hrun', hs⟩ := same_pass hans h.1.1 h.1.2 h.2
    (fun _ _ _ => rfl : BySocket fun _ => false)
  unfold Manager.periodicReclaim
  rw [run_bind_of_ret run_get, run_bind_of_ret run_get, run_bind_of_ret hrun,
    run_bind_of_ret hrun']
  split
  · have hmem : s'.ec.mem = s.ec.mem := mem_of_same hs
    refine ⟨_, _, _, rfl, rfl, ?_⟩
    exact ⟨hs.queue, hs.link, hs.agentsDb, hs.deployedPods, hs.dockerToSubContainer, hs.depPodLock,
      hs.memlock, congrArg (credited freed) hmem⟩
  · exact ⟨_, s, s', rfl, rfl, hs⟩

end Handlers

/-! ## An admission -/

/-- The state an admission leaves, once the quota is decided on; only a push may follow. -/
def enrolled (m : Manager) (cpu : Global.Cpu) (sc : SubContainer) : Manager :=
  let ec := (({ m.ec with cpu := cpu } : ElasticContainer).insertSc sc).updateFairCpuShare
  match m.agentsDb.lookup sc.cId.serverIp with
  | some agent =>
    let ec := (ec.addToScAcMap sc.cId agent).modifyBack sc.cId fun sc => sc.setScInserted true
    { m with ec := ec }
  | none => { m with ec := ec }

theorem run_modifyEc (f : ElasticContainer → ElasticContainer) :
    (modifyEc f).run m = .ret ⟨⟩ { m with ec := f m.ec } := rfl

theorem run_linkAgent_enrolled (cpu : Global.Cpu) (sc : SubContainer) :
    (linkAgent sc.cId).run { m with
      ec := (({ m.ec with cpu := cpu } : ElasticContainer).insertSc sc).updateFairCpuShare } =
      .ret ⟨⟩ (m.enrolled cpu sc) := by
  unfold linkAgent enrolled
  rw [run_bind_of_ret run_get]
  dsimp only
  cases m.agentsDb.lookup sc.cId.serverIp with
  | none => rfl
  | some agent => rfl

theorem back?_enroll {cpu : Global.Cpu} :
    (({ m.ec with cpu := cpu } : ElasticContainer).insertSc sc).updateFairCpuShare.back? sc.cId =
      some sc := by
  unfold ElasticContainer.back?
  rw [subcontainers_updateFairCpuShare]
  exact back?_insertSc

/-- Who has just been enrolled can be pushed to, or has not been inserted. -/
theorem back?_enrolled (hnull : m.ec.scAcMap.lookup sc.cId ≠ some none)
    (hnew : sc.inserted = false) (cpu : Global.Cpu) :
    ∃ sc', (m.enrolled cpu sc).ec.back? sc.cId = some sc' ∧ sc'.cId = sc.cId ∧
      (sc'.inserted = false ∨ ∃ a, (m.enrolled cpu sc).ec.agent? sc.cId = some a) := by
  unfold enrolled
  dsimp only
  cases m.agentsDb.lookup sc.cId.serverIp with
  | none => exact ⟨sc, back?_enroll, rfl, .inl hnew⟩
  | some agent =>
    have hback : ((({ m.ec with cpu := cpu } : ElasticContainer).insertSc
        sc).updateFairCpuShare.addToScAcMap sc.cId agent).back? sc.cId = some sc := back?_enroll
    refine ⟨_, back?_modifyBack hback, rfl, .inr ?_⟩
    unfold ElasticContainer.agent?
    dsimp only
    rw [scAcMap_modifyBack]
    unfold ElasticContainer.addToScAcMap UnorderedMap.emplace
    dsimp only
    rw [scAcMap_updateFairCpuShare, scAcMap_insertSc]
    dsimp only
    rcases hlink : m.ec.scAcMap.lookup sc.cId with _ | _ | a
    · exact ⟨agent, by rw [AList.lookup_insert]; rfl⟩
    · exact absurd hlink hnull
    · exact ⟨a, by rw [hlink]; rfl⟩

/-- **The process survives every admission**, and the state is the same up to the requests sent,
whether a push is made, waits for good or is not needed. -/
theorem next_init (env : Env) {req : Msg} (ip : UInt32) (fd : Int) (ht : req.reqType = initReq)
    (hnull : ∀ id, m.ec.scAcMap.lookup id ≠ some none) :
    ∃ cpu quota requests, gcm.next (.message env req ip fd) m = some
      { m.enrolled cpu (.new req.cgroupId ip fd quota req.request env.now) with
        quotaRequests := requests } := by
  have hquota : wp (determineQuotaForNewPod req.rsrcAmnt)
      (fun _ m' => ∃ cpu, m' = { m with ec := { m.ec with cpu := cpu } }) (fun _ _ => False) m :=
    wp_determineQuotaForNewPod_of fun _ cpu => ⟨cpu, rfl⟩
  obtain ⟨⟨update, quota⟩, m', hdetermine, cpu, rfl⟩ := wp_total.mp hquota
  refine ⟨cpu, quota, ?_⟩
  generalize hsc : SubContainer.new req.cgroupId ip fd quota req.request env.now = sc
  have hnew : sc.inserted = false := by
    rw [← hsc]
    rfl
  obtain ⟨sc', hback, hcId, hreach⟩ := back?_enrolled (hnull sc.cId) hnew cpu
  have hnext : gcm.next (.message env req ip fd) m =
      ((handleAddCgroupToEc env req ip fd).run m).uncaught.resume := by
    rw [← handleReq_of_init ht]
    exact resume_inThread_discard
  rw [hnext]
  unfold handleAddCgroupToEc
  rw [run_bind_of_ret hdetermine]
  dsimp only
  rw [hsc, run_bind_of_ret (run_modifyEc _), run_bind_of_ret (run_modifyEc _)]
  dsimp only
  rw [run_bind_of_ret (run_linkAgent_enrolled cpu sc)]
  cases update with
  | false => exact ⟨(m.enrolled cpu sc).quotaRequests, rfl⟩
  | true =>
    rw [if_pos rfl, run_bind_of_ret (run_backOf hback)]
    cases hins : sc'.inserted with
    | false =>
      have hhang : (setScQuotaSyscall env sc' quota 13).run (m.enrolled cpu sc) =
          .halt .hang (m.enrolled cpu sc) := by
        unfold setScQuotaSyscall
        rw [hins]
        rfl
      rw [run_bind_of_halt hhang]
      exact ⟨(m.enrolled cpu sc).quotaRequests, rfl⟩
    | true =>
      obtain ⟨a, ha⟩ := hreach.resolve_left (by rw [hins]; nofun)
      rw [← hcId] at ha
      rw [run_bind_of_ret (setScQuotaSyscall_of_agent hins ha)]
      exact ⟨_, rfl⟩

/-- Admissions with different quotas, or charged to different pools, look the same. -/
theorem same_enrolled {sc' : SubContainer} (h : SameMemory m t)
    (hsc : memoryObserver.SameSc sc sc') (cpu cpu' : Global.Cpu) :
    SameMemory (m.enrolled cpu sc) (t.enrolled cpu' sc') := by
  have hcpu : SameMemory { m with ec := { m.ec with cpu := cpu } }
      { t with ec := { t.ec with cpu := cpu' } } :=
    ⟨h.queue, h.link, h.agentsDb, h.deployedPods, h.dockerToSubContainer, h.depPodLock, h.memlock,
      h.look⟩
  have hins := hcpu.insertSc hsc
  have hshare : ∀ u : Manager, SameMemory u { u with ec := u.ec.updateFairCpuShare } := by
    intro u
    refine ⟨fun id => ?_, fun id => ?_, rfl, rfl, rfl, rfl, rfl, ?_⟩
    · unfold Observer.queue
      dsimp only
      rw [subcontainers_updateFairCpuShare]
    · dsimp only
      rw [scAcMap_updateFairCpuShare]
    · exact mem_updateFairCpuShare
  have hlink := memoryObserver.shadows_linkAgent sc.cId _ _
    (((hshare _).symm.trans hins).trans (hshare _))
  dsimp only at hlink
  rw [run_linkAgent_enrolled] at hlink
  rw [← hsc.cId, run_linkAgent_enrolled] at hlink
  cases hlink with
  | ret _ hR => exact hR

/-! ## What CPU control leaves alone -/

/-- Nothing the observer sees has changed, null entries of the agent map apart. -/
structure LeavesMemory (m m' : Manager) : Prop where
  queue : ∀ id, memoryObserver.queue m'.ec id = memoryObserver.queue m.ec id
  agent : ∀ id, m'.ec.agent? id = m.ec.agent? id
  agentsDb : m'.agentsDb = m.agentsDb
  deployedPods : m'.deployedPods = m.deployedPods
  dockerToSubContainer : m'.dockerToSubContainer = m.dockerToSubContainer
  depPodLock : m'.depPodLock = m.depPodLock
  memlock : m'.memlock = m.memlock
  mem : m'.ec.mem = m.ec.mem

instance : IsPreorder Manager LeavesMemory where
  refl _ := ⟨fun _ => rfl, fun _ => rfl, rfl, rfl, rfl, rfl, rfl, rfl⟩
  trans _ _ _ h h' :=
    ⟨fun id => (h'.queue id).trans (h.queue id), fun id => (h'.agent id).trans (h.agent id),
      h'.agentsDb.trans h.agentsDb, h'.deployedPods.trans h.deployedPods,
      h'.dockerToSubContainer.trans h.dockerToSubContainer, h'.depPodLock.trans h.depPodLock,
      h'.memlock.trans h.memlock, h'.mem.trans h.mem⟩

theorem AgentFrame.leavesMemory {m' : Manager} (h : AgentFrame m m') : LeavesMemory m m' := by
  obtain ⟨_, _, hagent, rfl⟩ := h
  exact ⟨fun _ => rfl, hagent, rfl, rfl, rfl, rfl, rfl, rfl⟩

theorem leavesMemory_modifyBack {f : SubContainer → SubContainer}
    (hf : ∀ sc ∈ m.ec.back? id, memoryObserver.SameSc sc (f sc)) :
    LeavesMemory m { m with ec := m.ec.modifyBack id f } := by
  refine ⟨fun id' => ?_, fun id' => agent?_congr scAcMap_modifyBack id', rfl, rfl, rfl, rfl, rfl,
    mem_modifyBack⟩
  unfold Observer.queue
  dsimp only
  rw [ElasticContainer.lookup_modifyBack]
  split
  · rename_i heq
    rw [heq]
    cases hq : m.ec.subcontainers.lookup id with
    | none => rw [Option.map_none]
    | some q =>
      rw [Option.map_some, Option.map_some]
      refine congrArg some ?_
      rcases List.eq_nil_or_concat' q with rfl | ⟨l, sc, rfl⟩
      · rfl
      · have hsc : memoryObserver.blur (f sc) = memoryObserver.blur sc := hf sc (back?_of_lookup hq)
        rw [List.modifyLast_concat, List.map_append, List.map_append, List.map_singleton,
          List.map_singleton, hsc]
  · rfl

section CpuHandlers

variable {req : Msg} {cpu cpu' : Global.Cpu} {sc' : SubContainer} {q : UInt64}

theorem sameSc_stamped : memoryObserver.SameSc sc (sc.stamped env req) := by
  unfold SubContainer.stamped SubContainer.syncSeqNum
  dsimp only
  split <;> rfl

theorem sameSc_syncQuota_dropped (h : sc.syncQuota q cpu = .dropped sc') :
    memoryObserver.SameSc sc sc' := by
  unfold SubContainer.syncQuota at h
  dsimp only at h
  split at h
  · split at h
    · cases h
    · cases h
      rfl
  · cases h

theorem sameSc_syncQuota_handled (h : sc.syncQuota q cpu = .handled sc' cpu') :
    memoryObserver.SameSc sc sc' := by
  unfold SubContainer.syncQuota at h
  dsimp only at h
  split at h
  · split at h
    · unfold SubContainer.adoptQuota at h
      dsimp only at h
      split at h <;> cases h <;> rfl
    · cases h
  · cases h
    rfl

theorem leavesMemory_counters {leak seq : Int64} {idleSeq : UInt32} {cpu : Global.Cpu} :
    LeavesMemory m { m with
      ec := { m.ec with cpu := cpu }, cpuleak := leak, syscallSequenceNumber := seq,
      idleContainerSyscallSeqNum := idleSeq } :=
  ⟨fun _ => rfl, fun _ => rfl, rfl, rfl, rfl, rfl, rfl, rfl⟩

theorem leavesMemory_applyResize {seqNumber : UInt32} {rz : Resize} :
    Keeps LeavesMemory (applyResize env id sc seqNumber rz) := by
  refine keeps_bind (keeps_setScQuotaSyscall AgentFrame.leavesMemory) fun ret =>
    keeps_ite (keeps_pure _) ?_
  refine keeps_bind (keeps_modify fun m => leavesMemory_modifyBack fun _ _ => rfl) fun _ => ?_
  exact keeps_modify fun m => leavesMemory_counters

theorem leavesMemory_accepted {sc₁ : SubContainer} {cpu₁ : Global.Cpu}
    (hb : m.ec.back? req.containerId = some sc)
    (hs : (sc.stamped env req).syncQuota req.rsrcAmnt m.ec.cpu = .handled sc₁ cpu₁) :
    LeavesMemory m (m.accepted env req sc₁ cpu₁) := by
  have hsc : memoryObserver.SameSc sc (sc₁.sampled env req) :=
    (sameSc_syncQuota_handled hs).trans sameSc_stamped
  have hcpu : LeavesMemory m { m with
      cpuleak := (fixRtLeak m.cpuleak cpu₁).1
      ec := { m.ec with cpu := (fixRtLeak m.cpuleak cpu₁).2 } } := leavesMemory_counters
  refine trans_of LeavesMemory hcpu (leavesMemory_modifyBack fun sc' hb' => ?_)
  cases hb.symm.trans hb'
  exact hsc

theorem leavesMemory_handleCpuUsageReport : Keeps LeavesMemory (handleCpuUsageReport env req) := by
  refine keeps_of_wp fun m => ?_
  by_cases ht : req.reqType = cpuReq
  · cases hb : m.ec.back? req.containerId with
    | none => exact wp_handleCpuUsageReport_of_absent ht hb fun _ => refl_of LeavesMemory m
    | some sc =>
      refine wp_handleCpuUsageReport ht hb (fun sc' hs => ?_) (fun sc₁ cpu₁ hs _ => ?_)
        (fun sc₁ cpu₁ rz hs _ => ?_)
      · refine leavesMemory_modifyBack fun sc₀ hb₀ => ?_
        cases hb.symm.trans hb₀
        exact (sameSc_syncQuota_dropped hs).trans sameSc_stamped
      · exact trans_of LeavesMemory (leavesMemory_accepted hb hs) leavesMemory_counters
      · refine wp_mono (leavesMemory_applyResize.wp _) (fun _ m' h' => ?_) (fun _ m' h' => ?_)
        · exact trans_of LeavesMemory (trans_of LeavesMemory (leavesMemory_accepted hb hs) h')
            leavesMemory_counters
        · exact trans_of LeavesMemory (leavesMemory_accepted hb hs) h'
  · unfold handleCpuUsageReport
    rw [wp_ite, if_pos ht]
    exact refl_of LeavesMemory m

theorem leavesMemory_checkForIdleContainers : Keeps LeavesMemory (checkForIdleContainers env) := by
  refine keeps_bind keeps_get fun m => keeps_forM _ fun id => ?_
  refine keeps_bind keeps_backOf fun sc => keeps_ite ?_ (keeps_pure _)
  refine keeps_bind keeps_get fun m => keeps_bind leavesMemory_applyResize fun _ => ?_
  exact keeps_modify fun _ => leavesMemory_counters

end CpuHandlers

end Manager

/-! ## Runs -/

/-- A CPU report or an idle sweep. -/
def Event.ofCpu : Event → Bool
  | .message _ req _ _ => req.reqType = cpuReq
  | .idleSweep _ => true
  | _ => false

/-- The calls of its handler to agents and cAdvisor, quota pushes apart, all have answers. -/
def Event.Answered : Event → Prop
  | .message env _ _ _ => env.Answers
  | .memLimit env _ _ => env.Answers
  | .periodicReclaim env => env.Answers
  | _ => True

section Runs

variable {m m' t : Manager} {e : Event}

theorem leavesMemory_next (he : e.ofCpu) (hnext : gcm.next e m = some m') : LeavesMemory m m' := by
  refine resume_of_wp (I := LeavesMemory m) ?_ hnext
  cases e with
  | message env req hostIp clifd =>
    have ht : req.reqType = cpuReq := of_decide_eq_true he
    have hkeeps : Keeps LeavesMemory (handleReq env req hostIp clifd) := by
      rw [handleReq_of_cpu ht]
      exact leavesMemory_handleCpuUsageReport
    exact (keeps_inThread (keeps_bind hkeeps fun _ => keeps_pure _)).wp m
  | idleSweep env => exact leavesMemory_checkForIdleContainers.wp m
  | appSpec spec => cases he
  | podSpec pod => cases he
  | matchDockerId scId dockerId => cases he
  | deletePod dockerId => cases he
  | memLimit env id clifd => cases he
  | periodicReclaim env => cases he

theorem Manager.LeavesMemory.same (h : LeavesMemory m m') (hm : m.Orderly) (hm' : m'.Orderly) :
    SameMemory m m' :=
  ⟨h.queue, hm.link_eq hm' h.agent, h.agentsDb, h.deployedPods, h.dockerToSubContainer,
    h.depPodLock, h.memlock, h.mem⟩

/-- What shadows itself is followed. -/
theorem next_of_shadows {R : Manager → Manager → Prop} {α : Type} {x : M α}
    (hx : Shadows R Eq x x) (hR : R m t)
    (hnext : ((x >>= fun _ => pure ⟨⟩ : M PUnit).run m).resume = some m') :
    ∃ t', ((x >>= fun _ => pure ⟨⟩ : M PUnit).run t).resume = some t' ∧ R m' t' := by
  rw [resume_discard] at hnext ⊢
  exact (hx m t hR).resume hnext

theorem next_message_of_shadows {R : Manager → Manager → Prop} {env : Env} {req : Msg}
    {hostIp : UInt32} {clifd : Int}
    (hx : Shadows R Eq (handleReq env req hostIp clifd) (handleReq env req hostIp clifd))
    (hR : R m t) (hnext : gcm.next (.message env req hostIp clifd) m = some m') :
    ∃ t', gcm.next (.message env req hostIp clifd) t = some t' ∧ R m' t' := by
  have hbind : Shadows R Eq (handleReq env req hostIp clifd >>= fun _ => (pure ⟨⟩ : M PUnit))
      (handleReq env req hostIp clifd >>= fun _ => (pure ⟨⟩ : M PUnit)) :=
    shadows_bind hx fun _ _ _ => shadows_pure rfl
  exact (shadows_inThread hbind m t hR).resume hnext

theorem next_init_same {env : Env} {req : Msg} {ip : UInt32} {fd : Int}
    (ht : req.reqType = initReq) (hm : m.Orderly) (h : SameMemory m t)
    (hnext : gcm.next (.message env req ip fd) m = some m') :
    ∃ t', gcm.next (.message env req ip fd) t = some t' ∧ SameMemory m' t' := by
  obtain ⟨cpu, quota, requests, hnext₁⟩ := next_init env ip fd ht hm.entries
  obtain ⟨cpu', quota', requests', hnext₂⟩ := next_init env ip fd ht
    (h.orderly hm).entries
  rw [hnext₁] at hnext
  cases hnext
  have hsc : memoryObserver.SameSc (.new req.cgroupId ip fd quota req.request env.now)
      (.new req.cgroupId ip fd quota' req.request env.now) := rfl
  have hsame := same_enrolled h hsc cpu cpu'
  exact ⟨_, hnext₂, hsame.queue, hsame.link, hsame.agentsDb, hsame.deployedPods,
    hsame.dockerToSubContainer, hsame.depPodLock, hsame.memlock, hsame.look⟩

/-- Every other event does the same to memory in both states. -/
theorem next_same (he : e.ofCpu = false) (hans : e.Answered) (hm : m.Orderly) (hq : m.ec.Queued)
    (h : SameMemory m t) (hnext : gcm.next e m = some m') :
    ∃ t', gcm.next e t = some t' ∧ SameMemory m' t' := by
  have hatt : SameAttended m t := ⟨⟨hm.toAttended, hq⟩, h⟩
  cases e with
  | appSpec spec =>
    rw [next_appSpec] at hnext ⊢
    cases hnext
    refine ⟨_, rfl, h.queue, h.link, h.agentsDb, h.deployedPods, h.dockerToSubContainer,
      h.depPodLock, h.memlock, ?_⟩
    exact congrArg (fun g : Global.Mem => ((g.setMemoryLimitInPages _).setUnallocatedMemoryInPages
      _).setAllocatedMemoryInPages 0) h.look
  | podSpec pod => exact next_of_shadows (memoryObserver.shadows_reportPodSpec pod) h hnext
  | matchDockerId scId dockerId =>
    exact (memoryObserver.shadows_matcher scId dockerId m t h).resume hnext
  | deletePod dockerId =>
    refine next_of_shadows (memoryObserver.shadows_deletePod dockerId ?_) h hnext
    intro m t id front front' rest rest' h hfront _ _
    have hmem : t.ec.mem = m.ec.mem := h.look
    show (t.afterDelete dockerId id front').ec.mem = (m.afterDelete dockerId id front).ec.mem
    rw [mem_afterDelete, mem_afterDelete, memLimit_of_same hfront, hmem]
  | memLimit env id clifd =>
    obtain ⟨t', hnext', -, h'⟩ :=
      (shadows_inThread (shadows_determineMemLimitForNewPod hans id clifd) m t hatt).resume hnext
    exact ⟨t', hnext', h'⟩
  | periodicReclaim env =>
    obtain ⟨t', hnext', -, h'⟩ :=
      (shadows_inThread (shadows_periodicReclaim hans) m t hatt).resume hnext
    exact ⟨t', hnext', h'⟩
  | idleSweep env => cases he
  | message env req hostIp clifd =>
    by_cases hinit : req.reqType = initReq
    · exact next_init_same hinit hm h hnext
    · by_cases hmem : req.reqType = memReq
      · have hreq : handleReq env req hostIp clifd = handleMemReq env req clifd :=
          handleReq_of_mem hmem
        have hx : Shadows SameAttended Eq (handleReq env req hostIp clifd)
            (handleReq env req hostIp clifd) := by
          rw [hreq]
          exact shadows_handleMemReq hans req clifd
        obtain ⟨t', hnext', -, h'⟩ := next_message_of_shadows hx hatt hnext
        exact ⟨t', hnext', h'⟩
      · have hcpu : req.reqType ≠ cpuReq := of_decide_eq_false he
        have hx : Shadows SameMemory Eq (handleReq env req hostIp clifd)
            (handleReq env req hostIp clifd) := by
          unfold handleReq
          rw [if_neg hmem, if_neg hcpu, if_neg hinit]
          exact shadows_pure rfl
        exact next_message_of_shadows hx h hnext

/-- The runs in which the memory side gets its answers. -/
def answeredRuns : System Manager Event :=
  (gcm.within Orderly).only fun _ e => e.Answered

/-- The observer of memory overlooks the CPU side of an orderly run. -/
theorem overlooks_cpu : System.Overlooks answeredRuns gcm (fun e => e.ofCpu = true)
    fun m t => (m.Orderly ∧ m.ec.Queued) ∧ SameMemory m t where
  unseen := by
    rintro e m m' t ⟨⟨hm, hq⟩, h⟩ he ⟨hen, -⟩ hnext
    have hm' : m'.Orderly := hen.2 m' hnext
    exact ⟨⟨hm', queued_next hq hnext⟩, ((leavesMemory_next he hnext).same hm hm').symm.trans h⟩
  seen := by
    rintro e m m' t ⟨⟨hm, hq⟩, h⟩ he ⟨hen, hans⟩ hnext
    obtain ⟨t', hnext', h'⟩ := next_same (Bool.eq_false_iff.mpr he) hans hm hq h hnext
    exact ⟨trivial, t', hnext', ⟨hen.2 m' hnext, queued_next hq hnext⟩, h'⟩

/-- **CPU reports and idle sweeps can be taken out of a run**: registrations, the memory pool and
all memory limits end up the same. -/
theorem memory_alone {agentsDb : UnorderedMap Ip4Addr AgentClient} {es : List Event}
    (hrun : (gcm.within Orderly).Trace es (.new agentsDb) m) (hans : ∀ e ∈ es, e.Answered) :
    ∃ t, gcm.Trace (es.filter fun e => ¬ e.ofCpu = true) (.new agentsDb) t ∧ SameMemory m t := by
  have hstart : ((Manager.new agentsDb).Orderly ∧ (Manager.new agentsDb).ec.Queued) ∧
      SameMemory (.new agentsDb) (.new agentsDb) :=
    ⟨⟨orderly_new agentsDb, queued_of_run .refl⟩, .refl _⟩
  have hanswered : answeredRuns.Trace es (.new agentsDb) m := hrun.only hans
  obtain ⟨t, htrace, -, h⟩ := overlooks_cpu.trace hstart hanswered
  exact ⟨t, htrace, h⟩

/-- Two containers, of which the first is given CPU and memory, and is deleted once the second has
got CPU too. -/
def mixedRun : List Event :=
  [.appSpec ⟨1000, 118⟩, connect 1 8, connect 2 9, deliver 0 (msgOf 1 cpuReq 1000 1),
   .podSpec (specOf 1 "a"), .memLimit (.uniform 0 0 0 0 40960000) ⟨1, node⟩ 8,
   .idleSweep (.uniform 0 0 0 0 0),
   .message (.uniform 0 0 0 0 0) (msgOf 1 memReq 10000 0) node.addr 8,
   deliver 0 (msgOf 2 cpuReq 1000 1), .deletePod "a"]

theorem memory_alone_in_mixed_run :
    ∃ m t, (gcm.within Orderly).Trace mixedRun (.new oneAgent) m ∧
      gcm.Trace (mixedRun.filter fun e => ¬ e.ofCpu = true) (.new oneAgent) t ∧
      SameMemory m t ∧ 1000 < m.ec.cpu.allocRt := by
  have hreplay : (((gcm.within Orderly).replay mixedRun (.new oneAgent)).any
      fun m => 1000 < m.ec.cpu.allocRt) = true := by decide +kernel
  obtain ⟨m, hrun, hcpu⟩ := System.exists_trace_of_replay hreplay
  have hans : ∀ e ∈ mixedRun, e.Answered := by
    unfold mixedRun
    simp only [List.forall_mem_cons]
    refine ⟨trivial, ?_, ?_, ?_, trivial, ?_, trivial, ?_, ?_, trivial, nofun⟩
    all_goals exact Env.answers_uniform ..
  obtain ⟨t, htrace, hsame⟩ := memory_alone hrun hans
  exact ⟨m, t, hrun, htrace, hsame, of_decide_eq_true hcpu⟩

end Runs

end EcGcm
