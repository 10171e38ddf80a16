import EcGcm.Proof.Quiet

/-!
# Recorded and enforced quotas

A quota change takes effect in two places at two times: the manager records it as soon as it has
handed the request to the agent, the container gets it when the agent has applied the request.
Reports that were sent in between still carry the old quota. The mismatch test drops the first
three of them in a row and *adopts* the fourth, although the update it overtook is still on its
way.

The parties are one container, its reports (first in, first out), the manager, and the updates on
their way to the agent (first in, first out again). The requests the manager has made are never
removed from `quotaRequests`; the ones that were applied already are counted.

What the quotas agree on, in every state, is the **last** word: the record is the last update on
its way, or the enforced quota if there is none (`Link.Inv`). Only an adoption that is not
followed by an update breaks this.
-/

set_option autoImplicit false

namespace EcGcm

open Handler Manager ElasticContainer

/-- The manager, and one container with its two channels. -/
structure Link where
  manager : Manager
  enforced : UInt64
  reports : List Msg
  /-- How many of the manager's quota requests have been applied. -/
  applied : ℕ

namespace Link

/-- The updates on their way to the agent. -/
def updates (s : Link) : List ContainerQuotaRequest := s.manager.quotaRequests.drop s.applied

inductive Event
  | report (throttled : UInt32) (rtRemaining : UInt64) (seqNum : UInt64)
  | handle (env : Env)
  | update

/-- What the container reports: the quota it has, and whatever it has used. -/
def reportOf (id : ContainerId) (quota : UInt64) (throttled : UInt32) (rtRemaining : UInt64)
    (seqNum : UInt64) : Msg where
  clientIp := id.serverIp
  cgroupId := id.cgroupId
  reqType := cpuReq
  rsrcAmnt := quota
  request := throttled
  runtimeRemaining := rtRemaining
  cpustatSeqNum := seqNum

def enabled (id : ContainerId) (s : Link) : Event → Prop
  | .report _ _ _ => True
  | .handle env => s.reports ≠ [] ∧ env.updateContainerQuota id = 0
  | .update => s.updates ≠ []

instance (id : ContainerId) (s : Link) : (e : Event) → Decidable (s.enabled id e)
  | .report _ _ _ => .isTrue trivial
  | .handle env => inferInstanceAs (Decidable (s.reports ≠ [] ∧ env.updateContainerQuota id = 0))
  | .update => inferInstanceAs (Decidable (s.updates ≠ []))

def next (id : ContainerId) : Event → Link → Option Link
  | .report throttled rtRemaining seqNum, s =>
    some { s with reports := s.reports ++ [reportOf id s.enforced throttled rtRemaining seqNum] }
  | .handle env, s =>
    match s.reports with
    | [] => none
    | req :: reports =>
      ((handleCpuUsageReport env req).run s.manager).resume.map fun m =>
        { s with manager := m, reports := reports }
  | .update, s =>
    s.updates.head?.map fun u => { s with enforced := u.newQuota, applied := s.applied + 1 }

def system (id : ContainerId) : System Link Event := ⟨enabled id, next id⟩

instance (id : ContainerId) (s : Link) (e : Event) : Decidable ((system id).enabled s e) :=
  inferInstanceAs (Decidable (s.enabled id e))

/-- The manager knows the container, can reach it, and records `quota` for it. -/
def Connected (m : Manager) (id : ContainerId) (quota : UInt64) : Prop :=
  ∃ sc ∈ m.ec.back? id, sc.cId = id ∧ sc.inserted = true ∧ (m.ec.agent? id).isSome ∧
    sc.quota = quota

instance (m : Manager) (id : ContainerId) (quota : UInt64) : Decidable (Connected m id quota) :=
  inferInstanceAs (Decidable (∃ sc ∈ _, _ ∧ _ ∧ _ ∧ _))

/-- Both channels are empty. -/
def start (m : Manager) (quota : UInt64) : Link := ⟨m, quota, [], m.quotaRequests.length⟩

/-- At rest the manager records what the container has. -/
def Agrees (id : ContainerId) (s : Link) : Prop :=
  s.reports = [] → s.updates = [] → ∃ sc ∈ s.manager.ec.back? id, sc.quota = s.enforced

instance (id : ContainerId) (s : Link) : Decidable (s.Agrees id) :=
  inferInstanceAs (Decidable (_ → _ → ∃ sc ∈ _, _))

/-- The report is not adopted, or the chain goes on to resize. -/
def Follows (m : Manager) (env : Env) (req : Msg) (sc : SubContainer) : Sync → Prop
  | .dropped _ => True
  | .handled sc₁ cpu₁ =>
    sc.quotaMismatch req.rsrcAmnt = false ∨ (m.chainReading env req sc sc₁ cpu₁).resize ≠ none

instance (m : Manager) (env : Env) (req : Msg) (sc : SubContainer) :
    (y : Sync) → Decidable (Follows m env req sc y)
  | .dropped _ => .isTrue trivial
  | .handled _ _ => inferInstanceAs (Decidable (_ ∨ _))

/-- No adoption is left without an update. -/
def NoLoneAdoption (s : Link) : Event → Prop
  | .handle env => ∀ req ∈ s.reports.head?, ∀ sc ∈ s.manager.ec.back? req.containerId,
    Follows s.manager env req sc
      ((sc.stamped env req).syncQuota req.rsrcAmnt s.manager.ec.cpu)
  | _ => True

instance (s : Link) : (e : Event) → Decidable (s.NoLoneAdoption e)
  | .report _ _ _ => .isTrue trivial
  | .handle _ => inferInstanceAs (Decidable (∀ req ∈ _, ∀ sc ∈ _, _))
  | .update => .isTrue trivial

instance (id : ContainerId) (s : Link) (e : Event) :
    Decidable (((system id).only NoLoneAdoption).enabled s e) :=
  inferInstanceAs (Decidable (s.enabled id e ∧ s.NoLoneAdoption e))

/-! ## Handling one report -/

section Handle

variable {m m' : Manager} {id : ContainerId} {sc sc' : SubContainer} {quota : UInt64} {env : Env}
  {req : Msg}

theorem Connected.of_back (hb : m'.ec.back? id = some sc') (hid : sc'.identity = sc.identity)
    (hc : sc.cId = id) (hins : sc.inserted = true) (hagent : (m'.ec.agent? id).isSome) :
    Connected m' id sc'.quota := by
  have hc' : sc'.cId = sc.cId := congrArg Prod.fst hid
  have hins' : sc'.inserted = sc.inserted := congrArg (fun t => t.2.2.2) hid
  exact ⟨sc', hb, hc'.trans hc, hins'.trans hins, hagent, rfl⟩

/-- A report leaves the record and the requests alone, or adds one request and records it. -/
theorem wp_handle (hc : Connected m id quota) (ht : req.reqType = cpuReq)
    (hid : req.containerId = id) (hstatus : env.updateContainerQuota id = 0)
    (hfollows : ∀ sc ∈ m.ec.back? id,
      Follows m env req sc ((sc.stamped env req).syncQuota req.rsrcAmnt m.ec.cpu)) :
    wp (handleCpuUsageReport env req) (fun _ m' =>
      (m'.quotaRequests = m.quotaRequests ∧ Connected m' id quota) ∨
      ∃ u, m'.quotaRequests = m.quotaRequests ++ [u] ∧ Connected m' id u.newQuota)
      (fun _ _ => False) m := by
  obtain ⟨sc, hb, hcId, hins, hagent, rfl⟩ := hc
  subst hid
  have hf := hfollows sc hb
  have hacc : ∀ sc₁ cpu₁, (m.accepted env req sc₁ cpu₁).ec.back? req.containerId =
      some (sc₁.sampled env req) := fun sc₁ cpu₁ => back?_modifyBack hb
  have hagent' : ∀ sc₁ cpu₁, (m.accepted env req sc₁ cpu₁).ec.agent? req.containerId =
      m.ec.agent? req.containerId :=
    fun sc₁ cpu₁ => agent?_congr scAcMap_modifyBack _
  refine wp_handleCpuUsageReport ht hb (fun sc' hs => .inl ⟨rfl, ?_⟩)
    (fun sc₁ cpu₁ hs hrz => .inl ⟨rfl, ?_⟩) (fun sc₁ cpu₁ rz hs hrz => ?_)
  · have hsame := SubContainer.identity_syncQuota_dropped hs
    rw [SubContainer.identity_stamped] at hsame
    have hquota := SubContainer.quota_syncQuota_dropped hs
    rw [SubContainer.quota_stamped] at hquota
    rw [← hquota]
    refine .of_back (back?_modifyBack hb) hsame hcId hins ?_
    rw [agent?_congr scAcMap_modifyBack]
    exact hagent
  · -- nothing follows, so the report was not adopted
    rw [hs] at hf
    have hagree := hf.resolve_right (not_not.mpr hrz)
    rw [SubContainer.syncQuota_stamped_of_agree hagree] at hs
    cases hs
    have hquota : ((sc.stamped env req).sampled env req).quota = sc.quota := by
      rw [SubContainer.quota_sampled, SubContainer.quota_stamped]
    rw [← hquota]
    refine .of_back (hacc _ _) ?_ hcId hins ?_
    · rw [SubContainer.identity_sampled, SubContainer.identity_stamped]
    · exact (congrArg Option.isSome (hagent' _ _)).trans hagent
  · have hsame := SubContainer.identity_syncQuota_handled hs
    rw [SubContainer.identity_stamped] at hsame
    have hcId₁ : (sc₁.sampled env req).cId = req.containerId := (congrArg Prod.fst hsame).trans hcId
    have hins₁ : (sc₁.sampled env req).inserted = true :=
      (congrArg (fun t => t.2.2.2) hsame).trans hins
    obtain ⟨agent, hsome⟩ := Option.isSome_iff_exists.mp hagent
    have hsome₁ : (m.accepted env req sc₁ cpu₁).ec.agent? (sc₁.sampled env req).cId =
        some agent := by
      rw [hcId₁, hagent']
      exact hsome
    have hstatus₁ : env.updateContainerQuota (sc₁.sampled env req).cId = 0 := by
      rw [hcId₁]
      exact hstatus
    refine wp_applyResize_of_agent hins₁ hsome₁ hstatus₁ (.inr ⟨_, rfl, ?_⟩)
    refine .of_back (back?_modifyBack (hacc _ _)) SubContainer.identity_resized hcId₁ hins₁ ?_
    have hkept : ((m.accepted env req sc₁ cpu₁).ec.modifyBack req.containerId
        fun sc => sc.resized rz.newQuota).agent? req.containerId = m.ec.agent? req.containerId :=
      (agent?_congr scAcMap_modifyBack _).trans (hagent' _ _)
    exact (congrArg Option.isSome hkept).trans hagent

end Handle

/-! ## The last word -/

/-- What the container will have once every update on its way has been applied. -/
def final (s : Link) : UInt64 :=
  match s.updates.getLast? with
  | some u => u.newQuota
  | none => s.enforced

structure Inv (id : ContainerId) (s : Link) : Prop where
  connected : Connected s.manager id s.final
  reports : ∀ req ∈ s.reports, req.reqType = cpuReq ∧ req.containerId = id
  applied : s.applied ≤ s.manager.quotaRequests.length

variable {s s' : Link} {id : ContainerId} {m : Manager} {quota : UInt64}

theorem Inv.agrees (h : s.Inv id) : s.Agrees id := by
  intro _ hupdates
  obtain ⟨sc, hb, _, _, _, hquota⟩ := h.connected
  refine ⟨sc, hb, ?_⟩
  unfold final at hquota
  rw [hupdates] at hquota
  exact hquota

theorem Inv.report {throttled : UInt32} {rtRemaining seqNum : UInt64} (h : s.Inv id) :
    Inv id { s with
      reports := s.reports ++ [reportOf id s.enforced throttled rtRemaining seqNum] } := by
  refine ⟨h.connected, fun req hreq => ?_, h.applied⟩
  rcases List.mem_append.mp hreq with hold | hnew
  · exact h.reports req hold
  · rw [List.mem_singleton.mp hnew]
    exact ⟨rfl, rfl⟩

/-- Applying an update that is not the last one leaves the last one last; applying the last one
makes it the enforced quota. -/
theorem Inv.update {u : ContainerQuotaRequest} (h : s.Inv id) (hu : s.updates.head? = some u) :
    Inv id { s with enforced := u.newQuota, applied := s.applied + 1 } := by
  obtain ⟨rest, hrest⟩ : ∃ rest, s.updates = u :: rest := List.head?_eq_some_iff.mp hu
  have htail : s.manager.quotaRequests.drop (s.applied + 1) = rest := by
    have hdrop := congrArg List.tail hrest
    unfold updates at hdrop
    rw [List.tail_drop] at hdrop
    exact hdrop
  have hfinal : ({ s with enforced := u.newQuota, applied := s.applied + 1 } : Link).final =
      s.final := by
    unfold final updates
    dsimp only
    rw [htail]
    unfold updates at hrest
    rw [hrest]
    cases rest with
    | nil => rfl
    | cons v rest =>
      rw [List.getLast?_cons_cons, List.getLast?_eq_some_getLast (List.cons_ne_nil v rest)]
  refine ⟨?_, h.reports, ?_⟩
  · rw [hfinal]
    exact h.connected
  · have hlen := congrArg List.length hrest
    unfold updates at hlen
    rw [List.length_drop, List.length_cons] at hlen
    show s.applied + 1 ≤ s.manager.quotaRequests.length
    omega

theorem Inv.handle {env : Env} {req : Msg} {reports : List Msg} {m' : Manager} (h : s.Inv id)
    (hr : s.reports = req :: reports) (hstatus : env.updateContainerQuota id = 0)
    (hfollows : s.NoLoneAdoption (.handle env))
    (hnext : ((handleCpuUsageReport env req).run s.manager).resume = some m') :
    Inv id { s with manager := m', reports := reports } := by
  have happlied := h.applied
  obtain ⟨ht, hid⟩ := h.reports req (by rw [hr]; exact List.mem_cons_self)
  have hf : ∀ sc ∈ s.manager.ec.back? id, Follows s.manager env req sc
      ((sc.stamped env req).syncQuota req.rsrcAmnt s.manager.ec.cpu) := by
    intro sc hb
    refine hfollows req (by rw [hr]; rfl) sc ?_
    rw [hid]
    exact hb
  have hreports : ∀ req' ∈ reports, req'.reqType = cpuReq ∧ req'.containerId = id :=
    fun req' hreq' => h.reports req' (by rw [hr]; exact List.mem_cons_of_mem _ hreq')
  refine resume_of_wp (I := fun m' => Inv id { s with manager := m', reports := reports }) ?_ hnext
  refine wp_mono (wp_handle h.connected ht hid hstatus hf) (fun _ m₁ h₁ => ?_)
    (fun _ _ he => he.elim)
  rcases h₁ with ⟨hreqs, hc⟩ | ⟨u, hreqs, hc⟩
  · have hfinal : ({ s with manager := m₁, reports := reports } : Link).final = s.final := by
      unfold final updates
      dsimp only
      rw [hreqs]
    refine ⟨?_, hreports, ?_⟩
    · rw [hfinal]
      exact hc
    · dsimp only
      rw [hreqs]
      exact happlied
  · have hfinal : ({ s with manager := m₁, reports := reports } : Link).final = u.newQuota := by
      unfold final updates
      dsimp only
      rw [hreqs, List.drop_append_of_le_length happlied, List.getLast?_append,
        List.getLast?_singleton, Option.some_or]
    refine ⟨?_, hreports, ?_⟩
    · rw [hfinal]
      exact hc
    · dsimp only
      rw [hreqs, List.length_append]
      omega

theorem Inv.next {e : Event} (h : s.Inv id) (hen : s.enabled id e) (hf : s.NoLoneAdoption e)
    (hnext : Link.next id e s = some s') : s'.Inv id := by
  cases e with
  | report throttled rtRemaining seqNum =>
    cases hnext
    exact h.report
  | update =>
    obtain ⟨u, hu, rfl⟩ := Option.map_eq_some_iff.mp hnext
    exact h.update hu
  | handle env =>
    unfold Link.next at hnext
    dsimp only at hnext
    cases hr : s.reports with
    | nil => exact absurd hr hen.1
    | cons req reports =>
      rw [hr] at hnext
      obtain ⟨m', hm, rfl⟩ := Option.map_eq_some_iff.mp hnext
      exact h.handle hr hen.2 hf hm

/-- **Recorded and enforced quota agree at rest**, in any interleaving in which no adoption is
left without an update. -/
theorem quotas_agree_of_run (hm : Connected m id quota)
    (hrun : ((system id).only NoLoneAdoption).Run (start m quota) s) : s.Agrees id := by
  have h0 : (start m quota).Inv id := by
    have hfinal : (start m quota).final = quota := by
      unfold final updates start
      dsimp only
      rw [List.drop_length]
      rfl
    refine ⟨?_, nofun, le_refl _⟩
    rw [hfinal]
    exact hm
  have h : s.Inv id := by
    refine System.invariant h0 (fun e t t' ht hen hnext => ?_) hrun
    exact ht.next hen.1 hen.2 hnext
  exact h.agrees

/-! ## Two runs

A container with a quota of 30000000 has been throttled once. The first report brings it an update;
what differs is how many reports with the old quota are handled before the update is applied. -/

/-- Admission of the container. -/
def admitted : List EcGcm.Event := [.appSpec ⟨10000, 1000⟩, deliver 0 (msgOf 1 initReq 30000000 0)]

/-- `n` reports are sent and handled before the first update is applied. -/
def reportsRun (n : ℕ) : List Event :=
  List.replicate n (.report 1 0 1) ++ List.replicate n (.handle (.uniform 0 0 0 0 0)) ++ [.update]

/-- Three reports are dropped, and the quotas agree. -/
theorem quotas_agree_after_update :
    ∃ m s, Connected m ⟨1, node⟩ 30000000 ∧
      ((system ⟨1, node⟩).only NoLoneAdoption).Run (start m 30000000) s ∧
      s.Agrees ⟨1, node⟩ ∧ 30000000 < s.enforced := by
  have hreplay : ((gcm.replay admitted (.new oneAgent)).any fun m =>
      Connected m ⟨1, node⟩ 30000000 ∧
        (((system ⟨1, node⟩).only NoLoneAdoption).replay (reportsRun 4) (start m 30000000)).any
          fun s => 30000000 < s.enforced) = true := by
    decide +kernel
  obtain ⟨m, _, hm⟩ := System.exists_run_of_replay hreplay
  obtain ⟨hc, hlink⟩ := of_decide_eq_true hm
  obtain ⟨s, hrun, hq⟩ := System.exists_run_of_replay hlink
  exact ⟨m, s, hc, hrun, quotas_agree_of_run hc hrun, of_decide_eq_true hq⟩

/-- The fourth one is adopted, and the update it overtook comes after it. -/
theorem quotas_disagree_at_rest :
    ¬ ∀ (id : ContainerId) (m : Manager) (quota : UInt64) (s : Link), gcm.Run (.new oneAgent) m →
      Connected m id quota → (system id).Run (start m quota) s → s.Agrees id := by
  intro hclaim
  have hreplay : ((gcm.replay admitted (.new oneAgent)).any fun m =>
      Connected m ⟨1, node⟩ 30000000 ∧
        ((system ⟨1, node⟩).replay (reportsRun 5) (start m 30000000)).any
          fun s => ¬ s.Agrees ⟨1, node⟩) = true := by
    decide +kernel
  obtain ⟨m, hgcm, hm⟩ := System.exists_run_of_replay hreplay
  obtain ⟨hc, hlink⟩ := of_decide_eq_true hm
  obtain ⟨s, hrun, hbroken⟩ := System.exists_run_of_replay hlink
  exact of_decide_eq_true hbroken (hclaim ⟨1, node⟩ m 30000000 s hgcm hc hrun)

end Link

end EcGcm
