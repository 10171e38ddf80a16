import EcGcm.Proof.Quiet
import EcGcm.Proof.Reclaim

/-!
# Which messages the controller survives

A lookup that does not find its container ends the process, and so does a missing agent; a
container that is not marked as inserted blocks the thread that pushes to it. A call to the outside
may have no answer, and a mutex may have been left locked. For the three requests a peer can send
at any time, a CPU report, a memory request and a `DeletePod`, this file says exactly when the
handler comes back (`peer_survives_iff`).

An unknown container is survived in two cases only: a docker id that was never registered, and a
memory request that finds nothing to give.
-/

set_option autoImplicit false

namespace EcGcm

open Handler Manager ElasticContainer

/-- CPU reports, memory requests and deletions. -/
def PeerEvent : Event → Prop
  | .message _ req _ _ => req.reqType = cpuReq ∨ req.reqType = memReq
  | .deletePod _ => True
  | _ => False

namespace Manager

variable {m m' : Manager} {env : Env} {req : Msg} {id : ContainerId} {sc : SubContainer}
  {clifd : Int} {dockerId : String} {e : Event}

/-- The container an event names is registered. -/
def Known (m : Manager) : Event → Prop
  | .message _ req _ _ => (m.ec.subcontainers.lookup req.containerId).isSome
  | .deletePod dockerId =>
    ∃ id ∈ m.dockerToSubContainer.lookup dockerId, (m.ec.subcontainers.lookup id).isSome
  | _ => True

/-- Both pools and all containers are what they were. -/
def Unharmed (m m' : Manager) : Prop :=
  m'.ec.cpu = m.ec.cpu ∧ m'.ec.mem = m.ec.mem ∧ m'.ec.subcontainers = m.ec.subcontainers

/-- The handler comes back, and an unknown container has cost nobody anything. -/
def Survives (m : Manager) (e : Event) : Prop :=
  ∃ m', e.handle.run m = .ret ⟨⟩ m' ∧ (¬ m.Known e → Unharmed m m')

theorem AgentFrame.unharmed (h : AgentFrame m m') : Unharmed m m' :=
  ⟨h.cpu, h.mem, h.subcontainers⟩

theorem survives_iff_wp :
    m.Survives e ↔ wp e.handle (fun _ m' => ¬ m.Known e → Unharmed m m') (fun _ _ => False) m := by
  rw [wp_total]
  constructor
  · rintro ⟨m', hrun, h⟩
    exact ⟨⟨⟩, m', hrun, h⟩
  · rintro ⟨_, m', hrun, h⟩
    exact ⟨m', hrun, h⟩

/-- If a handler can only halt, or return with `Q`, a survivor has `Q`. -/
theorem Survives.of_wp {Q : Manager → Prop} (h : m.Survives e)
    (hwp : wp e.handle (fun _ => Q) (fun _ _ => True) m) :
    ∃ m', Q m' ∧ (¬ m.Known e → Unharmed m m') := by
  obtain ⟨m', hrun, hm⟩ := h
  exact ⟨m', (wp_of_run hrun).mp hwp, hm⟩

/-! ## The three conditions -/

/-- The report leads to a quota push. -/
def Pushes (m : Manager) (env : Env) (req : Msg) (sc : SubContainer) : Prop :=
  match (sc.stamped env req).syncQuota req.rsrcAmnt m.ec.cpu with
  | .dropped _ => False
  | .handled sc₁ cpu₁ => (m.chainReading env req sc sc₁ cpu₁).resize.isSome

instance (m : Manager) (env : Env) (req : Msg) (sc : SubContainer) :
    Decidable (m.Pushes env req sc) := by
  unfold Pushes
  split <;> infer_instance

/-- A report: the container is there, and if its quota is to change, it can be reached. -/
def ReportSafe (m : Manager) (env : Env) (req : Msg) : Prop :=
  ∃ sc ∈ m.ec.back? req.containerId,
    m.Pushes env req sc → sc.inserted = true ∧ (m.ec.agent? req.containerId).isSome

instance (m : Manager) (env : Env) (req : Msg) : Decidable (m.ReportSafe env req) :=
  inferInstanceAs (Decidable (∃ sc ∈ _, _ → _))

/-- A memory request: nobody has left `memlock` locked. With pages in the pool the requester is
there; without, the reclaim gets its answers, and the requester is there or nobody is shrunk. -/
def RequestSafe (m : Manager) (env : Env) (req : Msg) (clifd : Int) : Prop :=
  m.memlock = false ∧
  (m.ec.mem.unallocatedMemoryInPages > 0 →
    (m.ec.subcontainers.lookup req.containerId).isSome) ∧
  (¬ m.ec.mem.unallocatedMemoryInPages > 0 → m.Served env clifd ∧
    ((m.ec.subcontainers.lookup req.containerId).isSome ∨
      ∀ id sc, m.ec.back? id = some sc → sc.fd ≠ clifd → ¬ m.Shrinks env id sc))

/-- A deletion: the docker id is not registered, or its container is, and nobody has left
`dep_pod_lock` locked. -/
def DeleteSafe (m : Manager) (dockerId : String) : Prop :=
  (m.getScIdFromDockerId dockerId).cgroupId = 0 ∨
    (m.ec.subcontainers.lookup (m.getScIdFromDockerId dockerId)).isSome ∧ m.depPodLock = false

def PeerSafe (m : Manager) : Event → Prop
  | .message env req _ clifd =>
    (req.reqType = cpuReq → m.ReportSafe env req) ∧
    (req.reqType = memReq → m.RequestSafe env req clifd)
  | .deletePod dockerId => m.DeleteSafe dockerId
  | _ => False

/-- Nobody catches what a message's handler throws; here it does not matter. -/
theorem wp_message {x : M (AllocRet × Msg)} {hostIp : UInt32} {Q : Manager → Prop} {P : Prop}
    (hdispatch : handleReq env req hostIp clifd = x)
    (h : wp x (fun _ => Q) (fun _ _ => P) m) :
    wp (Event.message env req hostIp clifd).handle (fun _ => Q) (fun _ _ => P) m := by
  unfold Event.handle
  dsimp only
  rw [wp_inThread, wp_bind, hdispatch]
  exact h

/-! ## Reports -/

theorem wp_report_returns (ht : req.reqType = cpuReq) (hb : m.ec.back? req.containerId = some sc)
    (hid : sc.cId = req.containerId)
    (hpush : m.Pushes env req sc → sc.inserted = true ∧ (m.ec.agent? req.containerId).isSome) :
    wp (handleCpuUsageReport env req) (fun _ _ => True) (fun _ _ => False) m := by
  refine wp_handleCpuUsageReport ht hb (fun _ _ => trivial) (fun _ _ _ _ => trivial)
    (fun sc₁ cpu₁ rz hs hrz => ?_)
  obtain ⟨hins₁, hcId₁, hagent₁⟩ := reach_of_handled hs
  obtain ⟨hins, hagent⟩ : sc.inserted = true ∧ (m.ec.agent? req.containerId).isSome := by
    refine hpush ?_
    unfold Pushes
    rw [hs]
    dsimp only
    rw [hrz]
    rfl
  refine wp_applyResize (fun hnot => ?_) (fun m' _ _ hnone => ?_) (fun _ _ _ _ _ _ => trivial)
    (fun _ _ _ _ _ _ => trivial)
  · rw [hins₁, hins] at hnot
    cases hnot
  · rw [hcId₁, hid, hagent₁] at hnone
    rw [hnone] at hagent
    cases hagent

theorem wp_report_halts (ht : req.reqType = cpuReq) (hb : m.ec.back? req.containerId = some sc)
    (hid : sc.cId = req.containerId) (hpush : m.Pushes env req sc)
    (hnot : ¬ (sc.inserted = true ∧ (m.ec.agent? req.containerId).isSome)) :
    wp (handleCpuUsageReport env req) (fun _ _ => False) (fun _ _ => True) m := by
  unfold Pushes at hpush
  refine wp_handleCpuUsageReport ht hb (fun sc' hs => ?_) (fun sc₁ cpu₁ hs hrz => ?_)
    (fun sc₁ cpu₁ rz hs hrz => ?_)
  · rw [hs] at hpush
    exact hpush
  · rw [hs] at hpush
    dsimp only at hpush
    rw [hrz] at hpush
    cases hpush
  · obtain ⟨hins₁, hcId₁, hagent₁⟩ := reach_of_handled hs
    have hcontra : ∀ agent, (sc₁.sampled env req).inserted = true →
        (m.accepted env req sc₁ cpu₁).ec.agent? (sc₁.sampled env req).cId = some agent → False := by
      intro agent hins hagent
      rw [hcId₁, hid, hagent₁] at hagent
      rw [hins₁] at hins
      exact hnot ⟨hins, by rw [hagent]; rfl⟩
    exact wp_applyResize (fun _ => trivial) (fun _ _ _ _ => trivial)
      (fun _ agent _ hins hagent _ => hcontra agent hins hagent)
      (fun _ agent _ hins hagent _ => hcontra agent hins hagent)

theorem report_survives_iff {hostIp : UInt32} (hq : m.ec.Queued) (ht : req.reqType = cpuReq) :
    m.Survives (.message env req hostIp clifd) ↔ m.ReportSafe env req := by
  have hdispatch : handleReq env req hostIp clifd = handleCpuUsageReport env req :=
    handleReq_of_cpu ht
  constructor
  · intro h
    cases hb : m.ec.back? req.containerId with
    | none =>
      obtain ⟨_, hfalse, _⟩ := h.of_wp (Q := fun _ => False)
        (wp_message hdispatch (wp_handleCpuUsageReport_of_absent ht hb fun _ => trivial))
      exact hfalse.elim
    | some sc =>
      refine ⟨sc, hb, fun hpush => ?_⟩
      by_contra hnot
      obtain ⟨_, hfalse, _⟩ := h.of_wp (Q := fun _ => False)
        (wp_message hdispatch (wp_report_halts ht hb (hq.cId_of_back hb) hpush hnot))
      exact hfalse
  · rintro ⟨sc, hb, hpush⟩
    rw [survives_iff_wp]
    -- the container is known, so there is nothing to show about the state
    have hknown : m.Known (.message env req hostIp clifd) := by
      obtain ⟨l, hl⟩ := lookup_of_back? hb
      show (m.ec.subcontainers.lookup req.containerId).isSome = true
      rw [hl]
      rfl
    have hreturns := wp_report_returns ht hb (hq.cId_of_back hb) hpush
    refine wp_message hdispatch (wp_mono_ret hreturns fun _ _ _ => ?_)
    exact fun hnot => absurd hknown hnot

/-! ## Deletions -/

/-- A docker id is mapped to the container it names. -/
theorem known_of_lookup (hid : (m.getScIdFromDockerId dockerId).cgroupId ≠ 0)
    (hlook : (m.ec.subcontainers.lookup (m.getScIdFromDockerId dockerId)).isSome) :
    m.Known (.deletePod dockerId) := by
  unfold getScIdFromDockerId at hid hlook
  cases hd : m.dockerToSubContainer.lookup dockerId with
  | none =>
    rw [hd] at hid
    exact absurd rfl hid
  | some id =>
    rw [hd] at hlook
    exact ⟨id, hd, hlook⟩

theorem deletePod_survives_iff (hq : m.ec.Queued) :
    m.Survives (.deletePod dockerId) ↔ m.DeleteSafe dockerId := by
  have hrun : ∀ {r : Status × String} {m'}, (Manager.deletePod dockerId).run m = .ret r m' →
      (Event.deletePod dockerId).handle.run m = .ret ⟨⟩ m' := by
    intro r m' h
    exact run_bind_of_ret h
  have hhalt : ∀ {e : Halt} {m'}, (Manager.deletePod dockerId).run m = .halt e m' →
      ¬ m.Survives (.deletePod dockerId) := by
    rintro e m' h ⟨t, ht, _⟩
    have hhalted : (Event.deletePod dockerId).handle.run m = .halt e m' := run_bind_of_halt h
    cases hhalted.symm.trans ht
  by_cases hid : (m.getScIdFromDockerId dockerId).cgroupId = 0
  · refine ⟨fun _ => .inl hid, fun _ => ?_⟩
    exact ⟨m, hrun (deletePod_of_unknown hid), fun _ => ⟨rfl, rfl, rfl⟩⟩
  · have hsafe : m.DeleteSafe dockerId ↔
        (m.ec.subcontainers.lookup (m.getScIdFromDockerId dockerId)).isSome ∧
          m.depPodLock = false := or_iff_right hid
    rw [hsafe]
    cases hlook : m.ec.subcontainers.lookup (m.getScIdFromDockerId dockerId) with
    | none =>
      refine iff_of_false (hhalt (deletePod_of_absent rfl hid hlook)) ?_
      rintro ⟨hsome, _⟩
      cases hsome
    | some q =>
      cases q with
      | nil => exact absurd rfl (hq _ _ hlook).1
      | cons front rest =>
        cases hlock : m.depPodLock with
        | true =>
          refine iff_of_false (hhalt (deletePod_of_locked rfl hid hlook hlock)) ?_
          rintro ⟨_, hfree⟩
          cases hfree
        | false =>
          refine iff_of_true ?_ ⟨rfl, rfl⟩
          have hknown : m.Known (.deletePod dockerId) :=
            known_of_lookup hid (by rw [hlook]; rfl)
          exact ⟨_, hrun (deletePod_of_front rfl hid hlook hlock), fun hnot => absurd hknown hnot⟩

/-! ## Memory requests -/

theorem Quiet.isSome_lookup (h : Quiet m m') (id : ContainerId) :
    (m'.ec.subcontainers.lookup id).isSome = (m.ec.subcontainers.lookup id).isSome := by
  have hid := congrFun h.shape id
  unfold ElasticContainer.shape at hid
  rw [← Option.isSome_map, hid, Option.isSome_map]

/-- Nobody who has been looked at, shrunk or not, is owed an answer. -/
theorem Served.shrunk (hserved : m.Served env clifd) (hs : m.Shrinks env id sc) {limit : UInt64} :
    ({ m with ec := m.ec.modifyBack id fun sc' => sc'.setMemLimitInPages limit } :
      Manager).Served env clifd := by
  have hagent : ∀ i, (m.ec.modifyBack id fun sc' => sc'.setMemLimitInPages limit).agent? i =
      m.ec.agent? i := agent?_congr scAcMap_modifyBack
  intro i sc' hb hfd
  rw [answered_congr hagent]
  by_cases hi : i = id
  · subst hi
    rw [back?_modifyBack_map] at hb
    obtain ⟨sc₀, hb₀, rfl⟩ := Option.map_eq_some_iff.mp hb
    obtain ⟨⟨hreads, _⟩, hlinked, hmade⟩ := hs
    refine ⟨?_, fun _ => ⟨Option.isSome_iff_ne_none.mpr hlinked, by rw [hmade]; rfl⟩⟩
    exact (hserved i sc₀ hb₀ hfd).1
  · exact hserved i sc' ((back?_modifyBack_ne hi).symm.trans hb) hfd

theorem AgentFrame.served (h : AgentFrame m m') (hserved : m.Served env clifd) :
    m'.Served env clifd := by
  intro id sc hb hfd
  rw [answered_congr h.agent?]
  exact hserved id sc ((h.back? id).symm.trans hb) hfd

/-- A pass that gets its answers comes back. -/
theorem wp_handleReclaimMemory_returns (hq : m.ec.Queued) (hserved : m.Served env clifd) :
    wp (handleReclaimMemory env clifd) (fun _ t => Quiet m t) (fun _ _ => False) m := by
  let P : UInt64 → Manager → Prop := fun _ t => Quiet m t ∧ t.Served env clifd
  have hpass : wp (reclaimFrom env (fun sc => sc.fd = clifd) m.ec.subcontainers.keys) P
      (fun _ _ => False) m := by
    refine wp_reclaimFrom ⟨refl_of Quiet m, hserved⟩ ?_ ?_
    · rintro _ t id hid ⟨hquiet, _⟩ hnone
      obtain ⟨q, hlook⟩ := UnorderedMap.mem_keys_iff_lookup.mp hid
      have hsome := hquiet.isSome_lookup id
      rw [hlook] at hsome
      obtain ⟨q', hlook'⟩ := Option.isSome_iff_exists.mp hsome
      obtain ⟨sc, hb⟩ := (hquiet.queued hq).back hlook'
      rw [hb] at hnone
      cases hnone
    · rintro acc t id _ sc ⟨hquiet, hserved⟩ hb hkeep
      have hcId := (hquiet.queued hq).cId_of_back hb
      have hanswered := hserved id sc hb (of_decide_eq_false hkeep)
      refine wp_reclaim hb hcId (fun t' ht' _ _ => ?_) (fun _ _ _ hnot => hnot hanswered)
        (fun t' ht' hs => ?_)
      · exact ⟨trans_of Quiet hquiet ht'.quiet, ht'.served hserved⟩
      · have hs' : t'.Shrinks env id sc := (shrinks_congr ht'.agent?).mpr hs
        exact ⟨trans_of Quiet (trans_of Quiet hquiet ht'.quiet)
          (.modifyBack fun _ _ => SubContainer.identity_setMemLimitInPages),
          (ht'.served hserved).shrunk hs'⟩
  exact wp_mono_ret (wp_handleReclaimMemory hpass) fun _ _ h => h.1

/-- A pass in which nobody is shrunk frees nothing and changes no container. -/
theorem wp_handleReclaimMemory_idle (hq : m.ec.Queued) (hserved : m.Served env clifd)
    (hkept : ∀ id sc, m.ec.back? id = some sc → sc.fd ≠ clifd → ¬ m.Shrinks env id sc) :
    wp (handleReclaimMemory env clifd) (fun r t => r = 0 ∧ AgentFrame m t) (fun _ _ => False)
      m := by
  refine wp_handleReclaimMemory (wp_reclaimFrom ⟨rfl, .refl m⟩ ?_ ?_)
  · rintro _ t id hid ⟨_, hframe⟩ hnone
    obtain ⟨q, hlook⟩ := UnorderedMap.mem_keys_iff_lookup.mp hid
    obtain ⟨sc, hb⟩ := hq.back hlook
    rw [hframe.back?, hb] at hnone
    cases hnone
  · rintro acc t id _ sc ⟨hacc, hframe⟩ hb hkeep
    have hb₀ : m.ec.back? id = some sc := (hframe.back? id).symm.trans hb
    have hfd := of_decide_eq_false hkeep
    refine wp_reclaim hb (hq.cId_of_back hb₀) (fun t' ht' _ _ => ?_) (fun _ _ _ hnot => hnot ?_)
      (fun _ _ hs => ?_)
    · exact ⟨by rw [hacc, UInt64.add_zero], hframe.trans ht'⟩
    · exact (answered_congr hframe.agent?).mpr (hserved id sc hb₀ hfd)
    · exact absurd ((shrinks_congr hframe.agent?).mp hs) (hkept id sc hb₀ hfd)

/-- What a pass finds under `id` when it gets there. -/
structure Finds (m : Manager) (id : ContainerId) (sc : SubContainer) : Prop where
  queued : m.ec.Queued
  back : m.ec.back? id = some sc

theorem Finds.of_frame (h : m.Finds id sc) (hm : AgentFrame m m') : m'.Finds id sc :=
  ⟨hm.quiet.queued h.queued, (hm.back? id).trans h.back⟩

theorem Finds.of_shrunk_ne {id' : ContainerId} (h : m.Finds id sc) (hne : id ≠ id')
    (limit : UInt64) :
    ({ m with ec := m.ec.modifyBack id' fun sc' => sc'.setMemLimitInPages limit } :
      Manager).Finds id sc where
  queued := h.queued.modifyBack fun _ => SubContainer.cId_setMemLimitInPages
  back := (back?_modifyBack_ne hne).trans h.back

theorem Finds.shrunk (h : m.Finds id sc) (limit : UInt64) :
    ({ m with ec := m.ec.modifyBack id fun sc' => sc'.setMemLimitInPages limit } :
      Manager).Finds id (sc.setMemLimitInPages limit) where
  queued := h.queued.modifyBack fun _ => SubContainer.cId_setMemLimitInPages
  back := back?_modifyBack h.back

/-- A shrink elsewhere is not noticed. -/
theorem shrinks_shrunk {id' : ContainerId} {limit : UInt64} :
    ({ m with ec := m.ec.modifyBack id' fun sc' => sc'.setMemLimitInPages limit } :
      Manager).Shrinks env id sc ↔ m.Shrinks env id sc :=
  shrinks_congr (agent?_congr scAcMap_modifyBack)

theorem resizeTarget_shrunk {id' : ContainerId} {limit : UInt64} :
    ({ m with ec := m.ec.modifyBack id' fun sc' => sc'.setMemLimitInPages limit } :
      Manager).resizeTarget env id sc = m.resizeTarget env id sc :=
  resizeTarget_congr (agent?_congr scAcMap_modifyBack)

/-- A pass that is owed an answer does not come back. -/
theorem wp_reclaimFrom_lost {keep : SubContainer → Bool} {ids : List ContainerId}
    (h : m.Finds id sc) (hmem : id ∈ ids) (hkeep : keep sc = false)
    (hnot : ¬ m.Answered env id sc) :
    wp (reclaimFrom env keep ids) (fun _ _ => False) (fun _ _ => True) m := by
  induction ids generalizing m with
  | nil => cases hmem
  | cons i rest ih =>
    by_cases hi : id = i
    · subst hi
      refine wp_reclaimFrom_cons (fun _ => trivial) (fun sc' hb' hk => ?_) (fun sc' hb' _ => ?_)
      · obtain rfl := Option.some.inj (h.back.symm.trans hb')
        rw [hkeep] at hk
        cases hk
      · obtain rfl := Option.some.inj (h.back.symm.trans hb')
        exact wp_reclaim h.back (h.queued.cId_of_back h.back) (fun _ _ hans _ => absurd hans hnot)
          (fun _ _ _ _ => trivial) (fun _ _ hs => absurd hs.answered hnot)
    · have hrest : id ∈ rest := (List.mem_cons.mp hmem).resolve_left hi
      refine wp_reclaimFrom_cons (fun _ => trivial) (fun _ _ _ => ih h hrest hnot)
        (fun sc' hb' _ => ?_)
      refine wp_reclaim hb' (h.queued.cId_of_back hb') (fun t ht _ _ => ?_) (fun _ _ _ _ => trivial)
        (fun t ht _ => ?_)
      · exact ih (h.of_frame ht) hrest fun hans => hnot ((answered_congr ht.agent?).mp hans)
      · refine ih ((h.of_frame ht).of_shrunk_ne hi _) hrest fun hans => hnot ?_
        exact (answered_congr fun id => (agent?_congr scAcMap_modifyBack id).trans
          (ht.agent? id)).mp hans

/-- A pass over other ids does not touch `id`. -/
theorem wp_reclaimFrom_back {keep : SubContainer → Bool} {ids : List ContainerId}
    (h : m.Finds id sc) (hmem : id ∉ ids) :
    wp (reclaimFrom env keep ids) (fun _ t => t.ec.back? id = some sc) (fun _ _ => True) m := by
  have hpass : wp (reclaimFrom env keep ids) (fun _ t => t.Finds id sc) (fun _ _ => True) m := by
    refine wp_reclaimFrom h (fun _ _ _ _ _ _ => trivial) ?_
    intro acc t i hi sc' ht hb' _
    have hne : id ≠ i := fun heq => hmem (heq ▸ hi)
    exact wp_reclaim hb' (ht.queued.cId_of_back hb') (fun _ ht' _ _ => ht.of_frame ht')
      (fun _ _ _ _ => trivial) (fun _ ht' _ => (ht.of_frame ht').of_shrunk_ne hne _)
  exact wp_mono_ret hpass fun _ _ ht => ht.back

/-- A pass that shrinks `id`, if it comes back, leaves the new limit there. -/
theorem wp_reclaimFrom_shrinks {keep : SubContainer → Bool} {ids : List ContainerId}
    (hnd : ids.Nodup) (h : m.Finds id sc) (hmem : id ∈ ids) (hkeep : keep sc = false)
    (hs : m.Shrinks env id sc) :
    wp (reclaimFrom env keep ids) (fun _ t => ∃ sc', t.ec.back? id = some sc' ∧
      sc'.memLimitInPages = byteToPage (m.resizeTarget env id sc)) (fun _ _ => True) m := by
  induction ids generalizing m with
  | nil => cases hmem
  | cons i rest ih =>
    obtain ⟨hnot, hnd'⟩ := List.nodup_cons.mp hnd
    by_cases hi : id = i
    · subst hi
      refine wp_reclaimFrom_cons (fun _ => trivial) (fun sc' hb' hk => ?_) (fun sc' hb' _ => ?_)
      · obtain rfl := Option.some.inj (h.back.symm.trans hb')
        rw [hkeep] at hk
        cases hk
      · obtain rfl := Option.some.inj (h.back.symm.trans hb')
        refine wp_reclaim h.back (h.queued.cId_of_back h.back) (fun _ _ _ hkept => absurd hs hkept)
          (fun _ _ _ _ => trivial) (fun t ht _ => ?_)
        have hfinds := (h.of_frame ht).shrunk (byteToPage (m.resizeTarget env id sc))
        refine wp_mono_ret (wp_reclaimFrom_back hfinds hnot) fun _ t' ht' => ?_
        exact ⟨_, ht', SubContainer.memLimitInPages_setMemLimitInPages⟩
    · have hrest : id ∈ rest := (List.mem_cons.mp hmem).resolve_left hi
      refine wp_reclaimFrom_cons (fun _ => trivial) (fun _ _ _ => ih hnd' h hrest hs)
        (fun sc' hb' _ => ?_)
      refine wp_reclaim hb' (h.queued.cId_of_back hb') (fun t ht _ _ => ?_) (fun _ _ _ _ => trivial)
        (fun t ht _ => ?_)
      · have hpass := ih hnd' (h.of_frame ht) hrest ((shrinks_congr ht.agent?).mpr hs)
        rw [resizeTarget_congr ht.agent?] at hpass
        exact hpass
      · have hfinds := (h.of_frame ht).of_shrunk_ne hi (byteToPage (m.resizeTarget env i sc'))
        have hs' : t.Shrinks env id sc := (shrinks_congr ht.agent?).mpr hs
        have hpass := ih hnd' hfinds hrest (shrinks_shrunk.mpr hs')
        rw [resizeTarget_shrunk, resizeTarget_congr ht.agent?] at hpass
        exact hpass

/-- Granting to an unknown requester ends the process. -/
theorem wp_grantMemory_of_absent {memoryAvailable : Int64} {Q : AllocRet × Msg → Manager → Prop}
    (hlook : m.ec.subcontainers.lookup req.containerId = none) :
    wp (grantMemory req memoryAvailable) Q (fun _ _ => True) m := by
  refine wp_grantMemory (fun _ _ => trivial) fun sc hb => ?_
  obtain ⟨l, hl⟩ := lookup_of_back? hb
  rw [hlook] at hl
  cases hl

theorem wp_grantMemory_of_back {memoryAvailable : Int64}
    (hb : m.ec.back? req.containerId = some sc) :
    wp (grantMemory req memoryAvailable) (fun _ _ => True) (fun _ _ => False) m := by
  refine wp_grantMemory (fun hnone _ => ?_) fun _ _ => trivial
  rw [hb] at hnone
  cases hnone

theorem mem_keys_of_back (hb : m.ec.back? id = some sc) : id ∈ m.ec.subcontainers.keys := by
  obtain ⟨l, hl⟩ := lookup_of_back? hb
  exact UnorderedMap.mem_keys_iff_lookup.mpr ⟨_, hl⟩

theorem wp_request_lost (hq : m.ec.Queued) (ht : req.reqType = memReq)
    (hpool : ¬ m.ec.mem.unallocatedMemoryInPages > 0) (hb : m.ec.back? id = some sc)
    (hfd : sc.fd ≠ clifd) (hnot : ¬ m.Answered env id sc) :
    wp (handleMemReq env req clifd) (fun _ _ => False) (fun _ _ => True) m := by
  refine wp_handleMemReq_of_empty ht (fun _ => trivial) hpool ?_
  have hpass : wp (handleReclaimMemory env clifd) (fun _ _ => False) (fun _ _ => True) m :=
    wp_handleReclaimMemory
      (wp_reclaimFrom_lost ⟨hq, hb⟩ (mem_keys_of_back hb) (decide_eq_false hfd) hnot)
  exact wp_mono_ret hpass fun _ _ h => h.elim

theorem wp_request_harms (hq : m.ec.Queued) (ht : req.reqType = memReq)
    (hpool : ¬ m.ec.mem.unallocatedMemoryInPages > 0) (hb : m.ec.back? id = some sc)
    (hfd : sc.fd ≠ clifd) (hs : m.Shrinks env id sc)
    (hlook : m.ec.subcontainers.lookup req.containerId = none) :
    wp (handleMemReq env req clifd) (fun _ t => ¬ Unharmed m t) (fun _ _ => True) m := by
  have hpass : wp (handleReclaimMemory env clifd) (fun _ t => Quiet m t ∧
      ∃ sc', t.ec.back? id = some sc' ∧
        sc'.memLimitInPages = byteToPage (m.resizeTarget env id sc)) (fun _ _ => True) m := by
    have hquiet : wp (handleReclaimMemory env clifd) (fun _ => Quiet m) (fun _ _ => True) m :=
      wp_mono (quiet_mem.handleReclaimMemory.wp m) (fun _ _ h => h) fun _ _ _ => trivial
    exact wp_and hquiet (wp_handleReclaimMemory (wp_reclaimFrom_shrinks
      m.ec.subcontainers.nodupKeys ⟨hq, hb⟩ (mem_keys_of_back hb) (decide_eq_false hfd) hs))
  refine wp_handleMemReq_of_empty ht (fun _ => trivial) hpool (wp_mono_ret hpass ?_)
  rintro freed t ⟨hquiet, sc', hb', hlimit⟩
  -- the requester is still unknown, so a pass that freed anything ends in an exit
  have hlook' : t.ec.subcontainers.lookup req.containerId = none := by
    have := hquiet.isSome_lookup req.containerId
    rw [hlook] at this
    exact Option.isNone_iff_eq_none.mp (by simpa using this)
  refine ⟨fun _ hsame => ?_, fun _ _ g _ => wp_grantMemory_of_absent hlook',
    fun _ _ => wp_grantMemory_of_absent hlook'⟩
  have hbt : t.ec.back? id = some sc := by
    unfold ElasticContainer.back?
    rw [hsame.2.2]
    exact hb
  obtain rfl := Option.some.inj (hbt.symm.trans hb')
  exact byteToPage_resizeTarget_ne hs.1 hlimit.symm

theorem wp_request_returns (hq : m.ec.Queued) (ht : req.reqType = memReq)
    (hsafe : m.RequestSafe env req clifd) :
    wp (handleMemReq env req clifd)
      (fun _ t => ¬ (m.ec.subcontainers.lookup req.containerId).isSome → Unharmed m t)
      (fun _ _ => False) m := by
  have hgrant : ∀ {t : Manager} {avail : Int64}, Quiet m t →
      (m.ec.subcontainers.lookup req.containerId).isSome →
      wp (grantMemory req avail) (fun _ t' =>
        ¬ (m.ec.subcontainers.lookup req.containerId).isSome → Unharmed m t')
      (fun _ _ => False) t := by
    intro t avail hquiet hknown
    rw [← hquiet.isSome_lookup] at hknown
    obtain ⟨q, hlook⟩ := Option.isSome_iff_exists.mp hknown
    obtain ⟨sc, hb⟩ := (hquiet.queued hq).back hlook
    rw [hquiet.isSome_lookup] at hknown
    exact wp_mono_ret (wp_grantMemory_of_back hb) fun _ _ _ hnot => absurd hknown hnot
  have hmem : ∀ {t : Manager} {g : Global.Mem}, Quiet m t →
      Quiet m { t with ec := { t.ec with mem := g } } := fun h =>
    ⟨h.shape, h.agent, h.agentsDb, h.deployedPods, h.dockerToSubContainer, h.depPodLock⟩
  obtain ⟨hfree, hsome, hempty⟩ := hsafe
  have hlocked : m.memlock = true → False := by
    rw [hfree]
    nofun
  by_cases hpool : m.ec.mem.unallocatedMemoryInPages > 0
  · exact wp_handleMemReq_of_pool ht hlocked hpool (hgrant (refl_of Quiet m) (hsome hpool))
  · obtain ⟨hserved, hor⟩ := hempty hpool
    refine wp_handleMemReq_of_empty ht hlocked hpool ?_
    rcases hor with hknown | hkept
    · refine wp_mono_ret (wp_handleReclaimMemory_returns hq hserved) fun freed t hquiet => ?_
      exact ⟨fun _ hnot => absurd hknown hnot, fun _ _ g _ => hgrant (hmem hquiet) hknown,
        fun _ _ => hgrant (hmem hquiet) hknown⟩
    · refine wp_mono_ret (wp_handleReclaimMemory_idle hq hserved hkept) ?_
      rintro freed t ⟨hzero, hframe⟩
      refine ⟨fun _ _ => hframe.unharmed, fun hpos => ?_, fun hpos => ?_⟩
      · rw [hzero] at hpos
        cases hpos
      · rw [hzero] at hpos
        cases hpos

theorem request_survives_iff {hostIp : UInt32} (hq : m.ec.Queued) (ht : req.reqType = memReq) :
    m.Survives (.message env req hostIp clifd) ↔ m.RequestSafe env req clifd := by
  have hdispatch : handleReq env req hostIp clifd = handleMemReq env req clifd :=
    handleReq_of_mem ht
  -- what cannot return does not survive
  have hlost : wp (handleMemReq env req clifd) (fun _ _ => False) (fun _ _ => True) m →
      ¬ m.Survives (.message env req hostIp clifd) := fun h hsurvives => by
    obtain ⟨_, hfalse, _⟩ := hsurvives.of_wp (Q := fun _ => False) (wp_message hdispatch h)
    exact hfalse
  constructor
  · intro h
    have hfree : m.memlock = false := by
      by_contra hnot
      refine hlost ((wp_handleMemReq ht).mpr ?_) h
      rw [if_pos (Bool.not_eq_false _ ▸ hnot)]
      trivial
    refine ⟨hfree, fun hpool => ?_, fun hpool => ?_⟩
    · by_contra hnot
      have hlook := Option.not_isSome_iff_eq_none.mp hnot
      exact hlost (wp_handleMemReq_of_pool ht (fun _ => trivial) hpool
        (wp_grantMemory_of_absent hlook)) h
    · have hserved : m.Served env clifd := fun id sc hb hfd => by
        by_contra hnot
        exact hlost (wp_request_lost hq ht hpool hb hfd hnot) h
      refine ⟨hserved, ?_⟩
      by_contra hnot
      obtain ⟨hunknown, hshrunk⟩ := not_or.mp hnot
      have hlook := Option.not_isSome_iff_eq_none.mp hunknown
      push Not at hshrunk
      obtain ⟨id, sc, hb, hfd, hs⟩ := hshrunk
      obtain ⟨m', hharm, hun⟩ :=
        h.of_wp (wp_message hdispatch (wp_request_harms hq ht hpool hb hfd hs hlook))
      exact hharm (hun hunknown)
  · intro hsafe
    rw [survives_iff_wp]
    exact wp_message hdispatch (wp_request_returns hq ht hsafe)

end Manager

/-- **Exactly when the controller survives what a peer sends it**, in every reachable state. -/
theorem peer_survives_iff {db : UnorderedMap Ip4Addr AgentClient} {m : Manager} {e : Event}
    (hrun : gcm.Run (.new db) m) (hpeer : PeerEvent e) : m.Survives e ↔ m.PeerSafe e := by
  have hq := queued_of_run hrun
  cases e with
  | deletePod dockerId => exact deletePod_survives_iff hq
  | message env req hostIp clifd =>
    rcases hpeer with ht | ht
    · rw [report_survives_iff hq ht]
      refine ⟨fun h => ⟨fun _ => h, fun ht' => ?_⟩, fun h => h.1 ht⟩
      rw [ht] at ht'
      cases ht'
    · rw [request_survives_iff hq ht]
      refine ⟨fun h => ⟨fun ht' => ?_, fun _ => h⟩, fun h => h.2 ht⟩
      rw [ht] at ht'
      cases ht'
  | appSpec spec => exact hpeer.elim
  | podSpec pod => exact hpeer.elim
  | matchDockerId scId dockerId => exact hpeer.elim
  | memLimit env id clifd => exact hpeer.elim
  | idleSweep env => exact hpeer.elim
  | periodicReclaim env => exact hpeer.elim

/-- A throttled container is topped up from the pool: its report is safe, and comes back. -/
theorem peer_survives_report :
    ∃ m, gcm.Run (.new oneAgent) m ∧ m.Survives (deliver 0 (msgOf 1 cpuReq 30000000 1)) := by
  have hreplay : ((gcm.replay [.appSpec ⟨1000, 1000⟩, deliver 0 (msgOf 1 initReq 30000000 0)]
      (.new oneAgent)).any fun m => m.ReportSafe (.uniform 0 0 0 0 0)
        (msgOf 1 cpuReq 30000000 1)) = true := by
    decide +kernel
  obtain ⟨m, hrun, hsafe⟩ := System.exists_run_of_replay hreplay
  have hpeer : PeerEvent (deliver 0 (msgOf 1 cpuReq 30000000 1)) := Or.inl rfl
  refine ⟨m, hrun, (peer_survives_iff hrun hpeer).mpr ⟨fun _ => of_decide_eq_true hsafe, ?_⟩⟩
  intro ht
  cases ht

/-- A report about a container nobody registered ends the process. -/
theorem peer_message_kills :
    ¬ ∀ (db : UnorderedMap Ip4Addr AgentClient) (m : Manager) (e : Event),
      gcm.Run (.new db) m → PeerEvent e → m.Survives e := by
  intro hclaim
  obtain ⟨m', hrun, _⟩ := hclaim oneAgent (.new oneAgent)
    (deliver 0 (msgOf 1 cpuReq 30000000 0)) .refl (Or.inl rfl)
  have hexit : ((deliver 0 (msgOf 1 cpuReq 30000000 0)).handle.run (.new oneAgent)).result =
      none := by
    decide +kernel
  rw [hrun] at hexit
  cases hexit

end EcGcm
